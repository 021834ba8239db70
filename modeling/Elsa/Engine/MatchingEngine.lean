import Elsa.Engine.FillCost

/-!
# The matching engine

`process_container` takes one message from the order manager: a new order is matched in the book of its symbol and
the trades are sent, a cancellation is answered, and so is a query for a fill cost.  What the sends return is given
from outside; a trade whose send fails stays in `trade_events` with all that come after it.

With books that are consistent and sends that succeed, the three handlers do what `Matched`, `Cancelled` and the
quote say (`newOrderHandler_ok`, `cancelOrderHandler_ok`, `fillCostQueryHandler_ok`).
-/

namespace Elsa

open Base LimitOrderBook

structure MatchingEngine where
  limitOrderBooks : String → Option LimitOrderBook
  tradeEvents : List Trade

/-- What is sent on the order response connection and on the order request connection. -/
structure Sent where
  responses : List Container
  answers : List Container
deriving DecidableEq

def Trade.toContainer (t : Trade) : TradeContainer :=
  { ticker := t.ticker, price := t.price, quantity := t.quantity, tradeId := t.tradeId, takerId := t.takerId,
    makerId := t.makerId, takerOrderId := t.takerOrderId, makerOrderId := t.makerOrderId,
    isTakerBuyer := t.isTakerBuyer }

/-- The loop that sends `trade_events` from the front until it is empty or a send fails: what is sent, what stays. -/
def drainTrades (sendOk : Nat → Bool) : Nat → List Trade → List Container × List Trade
  | _, [] => ([], [])
  | k, t :: ts =>
    if sendOk k then
      let (sent, kept) := drainTrades sendOk (k + 1) ts
      (.trade t.toContainer :: sent, kept)
    else ([], t :: ts)

/-- `new_order.price.value_or(...)`. -/
def NewOrderSingle.enginePrice (o : NewOrderSingle) : Int :=
  o.price.getD (match o.side with | .bid => marketBidOrderPrice | .ask => marketAskOrderPrice)

namespace MatchingEngine

def new (activeSymbols : List String) : MatchingEngine :=
  ⟨fun symbol => if symbol ∈ activeSymbols then some (.new symbol) else none, []⟩

def setBook (me : MatchingEngine) (symbol : String) (b : LimitOrderBook) : MatchingEngine :=
  { me with limitOrderBooks := Function.update me.limitOrderBooks symbol (some b) }

def newOrderHandler (draw : Nat → Stamp) (sendOk : Nat → Bool) (me : MatchingEngine) (newOrder : NewOrderSingle) :
    Except Fault (MatchingEngine × Sent) := do
  require (newOrder.orderId ≠ none) (.contract .processNewOrder)
  let limitOrderBook ← orFail (me.limitOrderBooks newOrder.symbol) .outOfRange
  let orderId ← orFail newOrder.orderId .badOptionalAccess
  let (book, trades) ← limitOrderBook.addOrder draw orderId newOrder.enginePrice newOrder.orderQty newOrder.side
    newOrder.senderCompId
  let (sent, kept) := drainTrades sendOk 0 (me.tradeEvents ++ trades)
  return ({ me.setBook newOrder.symbol book with tradeEvents := kept }, ⟨sent, []⟩)

def cancelOrderHandler (sendOk : Nat → Bool) (me : MatchingEngine) (cancelRequest : CancelOrderRequest) :
    Except Fault (MatchingEngine × Sent) := do
  require (cancelRequest.orderId ≠ none) (.contract .processCancel)
  let limitOrderBook ← orFail (me.limitOrderBooks cancelRequest.symbol) .outOfRange
  let orderId ← orFail cancelRequest.orderId .badOptionalAccess
  let cancelSuccess := limitOrderBook.orderIdExists orderId
  let me' ← if cancelSuccess then (limitOrderBook.cancelOrder orderId).map (me.setBook cancelRequest.symbol)
    else .ok me
  let cancelResponse : CancelOrderResponse := ⟨orderId, cancelRequest.clOrdId, cancelSuccess⟩
  return (me', ⟨if sendOk 0 then [.cancelOrderResponse cancelResponse] else [], []⟩)

def fillCostQueryHandler (A : Arith) (sendOk : Nat → Bool) (me : MatchingEngine) (query : FillCostQuery) :
    Except Fault (MatchingEngine × Sent) := do
  let limitOrderBook ← orFail (me.limitOrderBooks query.symbol) .outOfRange
  let totalCost ← limitOrderBook.getFillCost A query.quantity query.side
  return (me, ⟨[], if sendOk 0 then [.fillCostResponse ⟨totalCost⟩] else []⟩)

def processContainer (A : Arith) (draw : Nat → Stamp) (sendOk : Nat → Bool) (me : MatchingEngine) :
    Container → Except Fault (MatchingEngine × Sent)
  | .newOrderSingle newOrder => me.newOrderHandler draw sendOk newOrder
  | .cancelOrderRequest cancelRequest => me.cancelOrderHandler sendOk cancelRequest
  | .fillCostQuery query => me.fillCostQueryHandler A sendOk query
  | _ => .ok (me, ⟨[], []⟩)

/-- An engine with a consistent book for each active symbol and no trade that waits to be sent. -/
structure Ok (activeSymbols : List String) (me : MatchingEngine) : Prop where
  book_iff : ∀ symbol, me.limitOrderBooks symbol ≠ none ↔ symbol ∈ activeSymbols
  book_ok : ∀ symbol b, me.limitOrderBooks symbol = some b → b.Ok ∧ b.ticker = symbol
  drained : me.tradeEvents = []

theorem new_ok (activeSymbols : List String) : (new activeSymbols).Ok activeSymbols where
  book_iff symbol := by simp [new]
  book_ok symbol b hb := by
    simp only [new] at hb
    split at hb
    · cases hb; exact ⟨LimitOrderBook.new_ok symbol, rfl⟩
    · cases hb
  drained := rfl

theorem Ok.setBook {activeSymbols : List String} {me : MatchingEngine} (h : me.Ok activeSymbols) {symbol : String}
    {b b' : LimitOrderBook} (hb : me.limitOrderBooks symbol = some b) (hok : b'.Ok) (ht : b'.ticker = b.ticker) :
    (me.setBook symbol b').Ok activeSymbols where
  book_iff symbol' := by
    simp only [MatchingEngine.setBook, Function.update_apply]
    split
    · rename_i hs
      subst hs
      simp [← h.book_iff, hb]
    · exact h.book_iff symbol'
  book_ok symbol' c hc := by
    simp only [MatchingEngine.setBook, Function.update_apply] at hc
    split at hc
    · rename_i hs
      cases hc
      exact ⟨hok, hs ▸ ht.trans (h.book_ok symbol b hb).2⟩
    · exact h.book_ok symbol' c hc
  drained := h.drained

end MatchingEngine

theorem drainTrades_all (k : Nat) (ts : List Trade) :
    drainTrades (fun _ => true) k ts = (ts.map fun t => .trade t.toContainer, []) := by
  induction ts generalizing k with
  | nil => rfl
  | cons t ts ih => simp [drainTrades, ih]

/-- The order as `match_order` sees it. -/
def NewOrderSingle.taker (o : NewOrderSingle) (id : Int) : Taker := ⟨id, o.enginePrice, o.side, o.senderCompId⟩

/-- The trade messages of an allotment. -/
def fillTrades (draw : Nat → Stamp) (ticker : String) (t : Taker) (fs : List (Node × Int)) : List TradeContainer :=
  fs.zipIdx.map fun f => (tradeOf (draw f.2) ticker t f.1.1.order f.1.2).toContainer

/-- The message for one maker, up to its trade id. -/
def fillTrade (ticker : String) (t : Taker) (f : Node × Int) : TradeContainer :=
  (tradeOf .zero ticker t f.1.order f.2).toContainer

theorem mem_fillTrades {draw : Nat → Stamp} {ticker : String} {t : Taker} {fs : List (Node × Int)}
    {tc : TradeContainer} (h : tc ∈ fillTrades draw ticker t fs) :
    ∃ f ∈ fs, ∃ tradeId, tc = { fillTrade ticker t f with tradeId } := by
  obtain ⟨⟨f, k⟩, hf, rfl⟩ := List.mem_map.1 h
  exact ⟨f, List.fst_mem_of_mem_zipIdx hf, (draw k).tradeId, rfl⟩

/-- What does not depend on trade ids can be read off the allotment. -/
theorem map_fillTrades {γ : Type} (g : TradeContainer → γ) (hg : ∀ tc id, g { tc with tradeId := id } = g tc)
    (draw : Nat → Stamp) (ticker : String) (t : Taker) (fs : List (Node × Int)) :
    (fillTrades draw ticker t fs).map g = fs.map fun f => g (fillTrade ticker t f) := by
  have hpoint : ∀ f : (Node × Int) × Nat, g (tradeOf (draw f.2) ticker t f.1.1.order f.1.2).toContainer =
      g (fillTrade ticker t f.1) := fun f =>
    (hg (fillTrade ticker t f.1) (draw f.2).tradeId).symm ▸ rfl
  unfold fillTrades
  rw [List.map_map]
  calc fs.zipIdx.map (g ∘ fun f => (tradeOf (draw f.2) ticker t f.1.1.order f.1.2).toContainer)
      = fs.zipIdx.map ((fun f => g (fillTrade ticker t f)) ∘ Prod.fst) := List.map_congr_left fun f _ => hpoint f
    _ = fs.map fun f => g (fillTrade ticker t f) := by rw [← List.map_map, List.zipIdx_map_fst]

namespace MatchingEngine

variable {activeSymbols : List String} {me me' : MatchingEngine} {out : Sent}

/-- A new order that is handled was admissible; its trades are sent in the order of its fills. -/
theorem newOrderHandler_ok (h : me.Ok activeSymbols) {draw : Nat → Stamp} {o : NewOrderSingle}
    (hp : o.enginePrice ≤ marketBidOrderPrice)
    (hrun : me.newOrderHandler draw (fun _ => true) o = .ok (me', out)) :
    ∃ id b b', o.orderId = some id ∧ me.limitOrderBooks o.symbol = some b ∧ b.orderIdMap id = none ∧
      (o.taker id).Ok ∧ 0 < o.orderQty ∧ b.Matched (o.taker id) o.orderQty b' ∧
      me' = me.setBook o.symbol b' ∧ me'.Ok activeSymbols ∧
      out = ⟨(fillTrades draw o.symbol (o.taker id) (b.fills (o.taker id) o.orderQty)).map .trade, []⟩ := by
  simp only [newOrderHandler, bind_eq_ok, require_eq_ok, orFail_eq_ok] at hrun
  obtain ⟨-, -, b, hb, id, hid, ⟨b', ts⟩, hadd, hrun⟩ := hrun
  obtain ⟨hbok, hticker⟩ := h.book_ok _ b hb
  -- the contract of `add_order` was checked, so the order is admissible
  have hadd₀ := hadd
  simp only [addOrder, bind_eq_ok, require_eq_ok] at hadd₀
  obtain ⟨-, ⟨h0, hfree, hprice, hq, hne⟩, -⟩ := hadd₀
  have ht : (o.taker id).Ok := ⟨h0, hprice, hp, hne⟩
  obtain ⟨hm, hok₁, -, hts⟩ := hbok.addOrder_ok ht hq hfree hadd
  rw [h.drained, List.nil_append, drainTrades_all] at hrun
  cases hrun
  refine ⟨id, b, b', hid, hb, hfree, ht, hq, hm, ?_, ?_, ?_⟩
  · rw [setBook, h.drained]
  · have := h.setBook hb hok₁ hm.ticker_eq
    rw [setBook, h.drained] at this
    exact this
  · rw [hts, hticker, fillTrades, List.map_map, List.map_map]
    rfl

theorem cancelOrderHandler_ok (h : me.Ok activeSymbols) {c : CancelOrderRequest}
    (hrun : me.cancelOrderHandler (fun _ => true) c = .ok (me', out)) :
    ∃ id b, c.orderId = some id ∧ me.limitOrderBooks c.symbol = some b ∧
      ((b.orderIdMap id = none ∧ me' = me ∧ out = ⟨[.cancelOrderResponse ⟨id, c.clOrdId, false⟩], []⟩) ∨
        ∃ b', b.orderIdMap id ≠ none ∧ b.Cancelled id b' ∧ me' = me.setBook c.symbol b' ∧ me'.Ok activeSymbols ∧
          out = ⟨[.cancelOrderResponse ⟨id, c.clOrdId, true⟩], []⟩) := by
  simp only [cancelOrderHandler, bind_eq_ok, require_eq_ok, orFail_eq_ok] at hrun
  obtain ⟨-, -, b, hb, id, hid, hrun⟩ := hrun
  obtain ⟨hbok, -⟩ := h.book_ok _ b hb
  refine ⟨id, b, hid, hb, ?_⟩
  cases hix : b.orderIdMap id with
  | none =>
    have hex : b.orderIdExists id = false := by rw [orderIdExists, hix]; rfl
    rw [hex] at hrun
    cases hrun
    exact Or.inl ⟨rfl, rfl, rfl⟩
  | some a =>
    have hex : b.orderIdExists id = true := by rw [orderIdExists, hix]; rfl
    have hne : b.orderIdMap id ≠ none := by rw [hix]; simp
    obtain ⟨b', heq, hc⟩ := hbok.cancelOrder_eq hne
    rw [hex, if_pos rfl, heq] at hrun
    cases hrun
    exact Or.inr ⟨b', by simp, hc, rfl, h.setBook hb (hc.ok hbok hne) hc.ticker_eq, rfl⟩

theorem fillCostQueryHandler_ok {A : Arith} {q : FillCostQuery}
    (hrun : me.fillCostQueryHandler A (fun _ => true) q = .ok (me', out)) :
    ∃ b cost, me.limitOrderBooks q.symbol = some b ∧ b.getFillCost A q.quantity q.side = .ok cost ∧ me' = me ∧
      out = ⟨[], [.fillCostResponse ⟨cost⟩]⟩ := by
  simp only [fillCostQueryHandler, bind_eq_ok, orFail_eq_ok] at hrun
  obtain ⟨b, hb, cost, hcost, hrun⟩ := hrun
  cases hrun
  exact ⟨b, cost, hb, hcost, rfl, rfl⟩

end MatchingEngine

end Elsa
