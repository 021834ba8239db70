import Elsa.System.Exchange

/-!
# Where accepted orders are

Every order that validation accepted is on its way to the engine, rests in the book of its symbol, or has left the
engine. `Placed` is the invariant of the engine's side of the exchange: it speaks of the accepted orders, the
requests on their way, the engine and the stream of all responses, whether the order manager has processed them or
not.  The quantity of an order that is on its way, rests or was traded (`live`) never exceeds what was ordered; it
is less only for an order whose cancellation was reported and for one at a reserved price, whose remainder the book
drops.

Requests that arrive, and every move of the engine, keep it.
-/

namespace Elsa

open Base LimitOrderBook

/-- The id an order runs under. -/
def NewOrderSingle.id (o : NewOrderSingle) : Int := o.orderId.getD (-1)

/-- What validation and the gateway guarantee of an accepted order. -/
structure NewOrderSingle.Admitted (cfg : Config) (o : NewOrderSingle) : Prop where
  id_eq : o.orderId = some o.id
  shape : o.ordType = .limit ↔ o.price.isSome = true
  symbol_active : o.symbol ∈ cfg.activeSymbols
  price_range : ∀ p, o.price = some p → 0 < p ∧ p ≤ marketBidOrderPrice
  qty_pos : 0 < o.orderQty
  qty_le : o.orderQty ≤ 2147483647
  user : cfg.usernameUserIdMap o.senderCompId ≠ none
  symbol_ne : o.side = .ask → o.symbol ≠ ""

/-- The names of an accepted order are in a trade as they were sent. -/
theorem NewOrderSingle.Admitted.upToNul_sender {cfg : Config} {o : NewOrderSingle} (h : o.Admitted cfg) :
    CString.upToNul o.senderCompId = o.senderCompId :=
  CString.upToNul_of_nulFree (cfg.users_nulFree _ h.user)

private theorem NewOrderSingle.Admitted.upToNul_symbol {cfg : Config} {o : NewOrderSingle} (h : o.Admitted cfg) :
    CString.upToNul o.symbol = o.symbol :=
  CString.upToNul_of_nulFree (cfg.symbols_nulFree _ h.symbol_active)

/-- The book does not keep a remainder at this price. -/
def NewOrderSingle.Reserved (o : NewOrderSingle) : Prop :=
  o.enginePrice = marketBidOrderPrice ∨ o.enginePrice = marketAskOrderPrice

/-- A resting order and the accepted order it comes from. -/
structure NewOrderSingle.RestsAs (o : NewOrderSingle) (symbol : String) (x : Order) : Prop where
  id_eq : o.id = x.orderId
  symbol_eq : o.symbol = symbol
  side_eq : o.side = x.side
  price_eq : o.price = some x.price
  sender_eq : o.senderCompId = x.traderId

theorem NewOrderSingle.RestsAs.cut {o : NewOrderSingle} {symbol : String} {x : Order} (h : o.RestsAs symbol x)
    (k : Int) : o.RestsAs symbol (x.cut k) :=
  ⟨h.id_eq, h.symbol_eq, h.side_eq, h.price_eq, h.sender_eq⟩

private theorem NewOrderSingle.price_eq_of_not_reserved {o : NewOrderSingle} (h : ¬ o.Reserved) :
    o.price = some o.enginePrice := by
  unfold Reserved enginePrice at *
  cases hp : o.price with
  | some p => rfl
  | none =>
    rw [hp] at h
    cases hs : o.side <;> simp [hs] at h

/-- A trade and the two accepted orders it is between. -/
structure TradeContainer.Between (t : TradeContainer) (taker maker : NewOrderSingle) : Prop where
  taker_id : taker.id = t.takerOrderId
  maker_id : maker.id = t.makerOrderId
  ids_ne : t.takerOrderId ≠ t.makerOrderId
  taker_symbol : taker.symbol = t.ticker
  maker_symbol : maker.symbol = t.ticker
  taker_side : taker.side = if t.isTakerBuyer then .bid else .ask
  maker_side : maker.side = taker.side.opposite
  taker_sender : taker.senderCompId = t.takerId
  maker_sender : maker.senderCompId = t.makerId
  maker_price : maker.price = some t.price
  crosses : (taker.taker taker.id).Crosses t.price
  price_pos : 0 < t.price
  quantity_pos : 0 < t.quantity

def TradeContainer.sellerOrderId (t : TradeContainer) :
    Int := if t.isTakerBuyer then t.makerOrderId else t.takerOrderId

/-- A trade and the orders of its buyer and its seller. -/
structure TradeContainer.Parties (t : TradeContainer) (buyer seller : NewOrderSingle) : Prop where
  buyer_id : buyer.id = t.buyerOrderId
  seller_id : seller.id = t.sellerOrderId
  buyer_side : buyer.side = .bid
  seller_side : seller.side = .ask
  buyer_symbol : buyer.symbol = t.ticker
  seller_symbol : seller.symbol = t.ticker
  buyer_sender : buyer.senderCompId = t.buyerId
  seller_sender : seller.senderCompId = t.sellerId
  limit_le : ∀ p, buyer.price = some p → t.price ≤ p
  market_taker : buyer.price = none → t.takerOrderId = buyer.id
  ids_ne : t.buyerOrderId ≠ t.sellerOrderId
  price_pos : 0 < t.price
  quantity_pos : 0 < t.quantity

theorem TradeContainer.Between.parties {t : TradeContainer} {taker maker : NewOrderSingle}
    (h : t.Between taker maker) :
    (t.isTakerBuyer = true ∧ t.Parties taker maker) ∨ (t.isTakerBuyer = false ∧ t.Parties maker taker) := by
  have hside := h.taker_side
  have hopp := h.maker_side
  have hcross := h.crosses
  -- a taker that buys crosses at its limit at most, a maker trades at its own limit
  cases hb : t.isTakerBuyer with
  | true =>
    left
    rw [hb, if_pos rfl] at hside
    rw [hside] at hopp
    refine ⟨rfl, ?_, ?_, hside, hopp, h.taker_symbol, h.maker_symbol, ?_, ?_, fun p hp => ?_,
      fun _ => h.taker_id.symm, ?_, h.price_pos, h.quantity_pos⟩
    · rw [buyerOrderId, hb, if_pos rfl, h.taker_id]
    · rw [sellerOrderId, hb, if_pos rfl, h.maker_id]
    · rw [buyerId, hb, if_pos rfl, h.taker_sender]
    · rw [sellerId, hb, if_pos rfl, h.maker_sender]
    · have hcross' : t.price ≤ taker.enginePrice := by simpa [Taker.Crosses, NewOrderSingle.taker, hside] using hcross
      rwa [NewOrderSingle.enginePrice, hp] at hcross'
    · rw [buyerOrderId, sellerOrderId, hb, if_pos rfl, if_pos rfl]
      exact h.ids_ne
  | false =>
    right
    rw [hb] at hside
    have hside' : taker.side = .ask := hside
    rw [hside'] at hopp
    refine ⟨rfl, ?_, ?_, hopp, hside', h.maker_symbol, h.taker_symbol, ?_, ?_, fun p hp => ?_, fun hp => ?_, ?_,
      h.price_pos, h.quantity_pos⟩
    · rw [buyerOrderId, hb, h.maker_id]; rfl
    · rw [sellerOrderId, hb, h.taker_id]; rfl
    · rw [buyerId, hb, h.maker_sender]; rfl
    · rw [sellerId, hb, h.taker_sender]; rfl
    · rw [h.maker_price] at hp
      cases hp
      exact le_refl _
    · rw [h.maker_price] at hp
      cases hp
    · rw [buyerOrderId, sellerOrderId, hb]
      exact h.ids_ne.symm

/-- What a trade moves for an order. -/
def TradeContainer.amountFor (t : TradeContainer) (id : Int) : Int :=
  (if t.takerOrderId = id then t.quantity else 0) + (if t.makerOrderId = id then t.quantity else 0)

def Container.amountFor : Container → Int → Int
  | .trade t, id => t.amountFor id
  | _, _ => 0

/-- What the trades among some responses move for an order. -/
def amountOf (cs : List Container) (id : Int) : Int := (cs.map fun c => c.amountFor id).sum

/-- A response is about an order: a trade of it, or its cancellation. -/
def Container.Touches (c : Container) (id : Int) : Prop :=
  c.closed? = some id ∨ ∃ t, c = .trade t ∧ (t.takerOrderId = id ∨ t.makerOrderId = id)

/-- The new orders among some requests. -/
def requested (cs : List Container) : List NewOrderSingle := cs.filterMap Container.newOrder?

/-- The quantity of the new orders of one id among some requests. -/
def requestedQty (cs : List Container) (id : Int) : Int :=
  totalAt NewOrderSingle.id NewOrderSingle.orderQty (requested cs) id

namespace MatchingEngine

/-- No book holds an order of this id. -/
def Absent (me : MatchingEngine) (id : Int) : Prop :=
  ∀ symbol b, me.limitOrderBooks symbol = some b → b.orderIdMap id = none

/-- The quantity that rests in a book under an id. -/
def restingQty (me : MatchingEngine) (symbol : String) (id : Int) : Int :=
  match me.limitOrderBooks symbol with
  | some b => totalAt nodeLots.key nodeLots.cap b.nodes id
  | none => 0

end MatchingEngine

/-- The quantity of an order that was traded, is on its way, or rests. -/
def live (requests : List Container) (me : MatchingEngine) (stream : List Container) (o : NewOrderSingle) : Int :=
  amountOf stream o.id + requestedQty requests o.id + me.restingQty o.symbol o.id

structure Placed (cfg : Config) (accepted : List NewOrderSingle) (requests : List Container) (me : MatchingEngine)
    (stream : List Container) : Prop where
  engine_ok : me.Ok cfg.activeSymbols
  admitted : ∀ o ∈ accepted, o.Admitted cfg
  nodup : (accepted.map NewOrderSingle.id).Nodup
  kinds : ∀ c ∈ requests,
    (∃ o ∈ accepted, c = .newOrderSingle o) ∨ (∃ r, c = .cancelOrderRequest r) ∨ ∃ q, c = .fillCostQuery q
  requested_nodup : ((requested requests).map NewOrderSingle.id).Nodup
  requested_absent : ∀ o ∈ requested requests, me.Absent o.id
  resting : ∀ symbol b, me.limitOrderBooks symbol = some b → ∀ n ∈ b.nodes, ∃ o ∈ accepted, o.RestsAs symbol n.order
  trades : ∀ t, .trade t ∈ stream → ∃ taker ∈ accepted, ∃ maker ∈ accepted, t.Between taker maker
  closing : stream.Pairwise fun c d => ∀ id, c.closed? = some id → ¬ d.Touches id
  closed : ∀ c ∈ stream, ∀ id, c.closed? = some id →
    id ∉ (requested requests).map NewOrderSingle.id ∧ me.Absent id ∧ ∃ o ∈ accepted, o.id = id ∧ o.price ≠ none
  live_le : ∀ o ∈ accepted, live requests me stream o ≤ o.orderQty
  live_eq : ∀ o ∈ accepted, live requests me stream o = o.orderQty ∨ (∃ c ∈ stream, c.closed? = some o.id) ∨
    (o.Reserved ∧ o.id ∉ (requested requests).map NewOrderSingle.id)

/-! ### Amounts -/

@[simp] theorem amountOf_nil (id : Int) : amountOf [] id = 0 := rfl

theorem amountOf_append (cs ds : List Container) (id : Int) :
    amountOf (cs ++ ds) id = amountOf cs id + amountOf ds id := by
  simp [amountOf]

theorem amountOf_cons (c : Container) (cs : List Container) (id : Int) :
    amountOf (c :: cs) id = c.amountFor id + amountOf cs id := rfl

theorem amountFor_eq_zero {c : Container} {id : Int} (h : ¬ c.Touches id) : c.amountFor id = 0 := by
  cases c with
  | trade t =>
    have h1 : t.takerOrderId ≠ id := fun he => h (Or.inr ⟨t, rfl, Or.inl he⟩)
    have h2 : t.makerOrderId ≠ id := fun he => h (Or.inr ⟨t, rfl, Or.inr he⟩)
    simp [Container.amountFor, TradeContainer.amountFor, h1, h2]
  | _ => rfl

theorem amountOf_eq_zero {cs : List Container} {id : Int} (h : ∀ c ∈ cs, ¬ c.Touches id) : amountOf cs id = 0 := by
  refine List.sum_eq_zero fun x hx => ?_
  obtain ⟨c, hc, rfl⟩ := List.mem_map.1 hx
  exact amountFor_eq_zero (h c hc)

/-- The trades of an allotment move its total for the taker, and for each maker what is taken from it. -/
theorem amountOf_fillTrades (draw : Nat → Stamp) (ticker : String) (t : Taker) (fs : List (Node × Int)) (id : Int) :
    amountOf ((fillTrades draw ticker t fs).map .trade) id =
      (if t.orderId = id then (fs.map Prod.snd).sum else 0) + totalAt (fun f => nodeLots.key f.1) Prod.snd fs id := by
  have hmap : ((fillTrades draw ticker t fs).map Container.trade).map (fun c => c.amountFor id) =
      fs.map fun f => (fillTrade ticker t f).amountFor id := by
    rw [List.map_map]
    exact map_fillTrades (fun tc => tc.amountFor id) (fun _ _ => rfl) draw ticker t fs
  rw [amountOf, hmap]
  clear hmap
  induction fs with
  | nil => simp
  | cons f fs ih =>
    have hf : (fillTrade ticker t f).amountFor id =
        (if t.orderId = id then f.2 else 0) + (if f.1.order.orderId = id then f.2 else 0) := rfl
    have hkey : nodeLots.key f.1 = f.1.order.orderId := rfl
    rw [List.map_cons, List.sum_cons, hf, totalAt_cons, hkey, ih, List.map_cons, List.sum_cons]
    split <;> omega

@[simp] theorem requested_nil : requested [] = [] := rfl

@[simp] theorem requested_cons_newOrder (o : NewOrderSingle) (cs : List Container) :
    requested (.newOrderSingle o :: cs) = o :: requested cs := rfl

theorem requested_append (cs ds : List Container) : requested (cs ++ ds) = requested cs ++ requested ds :=
  List.filterMap_append

theorem mem_requested {cs : List Container} {o : NewOrderSingle} : o ∈ requested cs ↔ .newOrderSingle o ∈ cs := by
  rw [requested, List.mem_filterMap]
  constructor
  · rintro ⟨c, hc, h⟩
    cases c <;> cases h
    exact hc
  · intro h
    exact ⟨_, h, rfl⟩

theorem requestedQty_eq_zero {cs : List Container} {id : Int} (h : id ∉ (requested cs).map NewOrderSingle.id) :
    requestedQty cs id = 0 :=
  totalAt_eq_zero fun o ho he => h (List.mem_map.2 ⟨o, ho, he⟩)

private theorem requestedQty_append (cs ds : List Container) (id : Int) :
    requestedQty (cs ++ ds) id = requestedQty cs id + requestedQty ds id := by
  rw [requestedQty, requested_append, totalAt_append]
  rfl

theorem requestedQty_cons_newOrder (o : NewOrderSingle) (cs : List Container) (id : Int) :
    requestedQty (.newOrderSingle o :: cs) id = (if o.id = id then o.orderQty else 0) + requestedQty cs id := rfl

namespace MatchingEngine

theorem limitOrderBooks_setBook (me : MatchingEngine) (symbol : String) (b : LimitOrderBook) (symbol' : String) :
    (me.setBook symbol b).limitOrderBooks symbol' = if symbol' = symbol then some b else me.limitOrderBooks symbol' :=
  Function.update_apply ..

private theorem restingQty_setBook (me : MatchingEngine) (symbol : String) (b : LimitOrderBook) (symbol' : String)
    (id : Int) :
    (me.setBook symbol b).restingQty symbol' id =
      if symbol' = symbol then totalAt nodeLots.key nodeLots.cap b.nodes id else me.restingQty symbol' id := by
  unfold restingQty
  rw [limitOrderBooks_setBook]
  by_cases hs : symbol' = symbol
  · rw [if_pos hs, if_pos hs]
  · rw [if_neg hs, if_neg hs]

theorem Absent.setBook {me : MatchingEngine} {id : Int} (h : me.Absent id) {symbol : String} {b : LimitOrderBook}
    (hb : b.orderIdMap id = none) : (me.setBook symbol b).Absent id := by
  intro symbol' b' hb'
  rw [limitOrderBooks_setBook] at hb'
  split at hb'
  · cases hb'; exact hb
  · exact h symbol' b' hb'

private theorem restingQty_eq_zero {activeSymbols : List String} {me : MatchingEngine} (hok : me.Ok activeSymbols)
    {id : Int} (h : me.Absent id) (symbol : String) : me.restingQty symbol id = 0 := by
  unfold restingQty
  cases hb : me.limitOrderBooks symbol with
  | none => rfl
  | some b => exact totalAt_eq_zero ((hok.book_ok symbol b hb).1.not_resting (h symbol b hb))

theorem restingQty_nonneg {activeSymbols : List String} {me : MatchingEngine} (hok : me.Ok activeSymbols)
    (symbol : String) (id : Int) : 0 ≤ me.restingQty symbol id := by
  unfold restingQty
  cases hb : me.limitOrderBooks symbol with
  | none => exact le_refl 0
  | some b =>
    refine totalAt_nonneg (fun n hn => ?_) id
    rcases List.mem_append.1 hn with hn | hn <;>
      exact ((hok.book_ok symbol b hb).1.node_ok hn).1.quantity_pos.le

end MatchingEngine

namespace Placed

variable {cfg : Config} {accepted : List NewOrderSingle} {requests : List Container} {me : MatchingEngine}
  {stream : List Container} {o : NewOrderSingle}

/-- An accepted order is told by its id. -/
theorem eq_of_id (h : Placed cfg accepted requests me stream) {o' : NewOrderSingle} (ho : o ∈ accepted)
    (ho' : o' ∈ accepted) (he : o.id = o'.id) : o = o' :=
  List.inj_on_of_nodup_map h.nodup ho ho' he

theorem mem_accepted (h : Placed cfg accepted requests me stream) (ho : o ∈ requested requests) : o ∈ accepted := by
  rcases h.kinds _ (mem_requested.1 ho) with ⟨o', ho', he⟩ | ⟨r, he⟩ | ⟨q, he⟩
  · cases he; exact ho'
  · cases he
  · cases he

/-- A response is about accepted orders only. -/
theorem accepted_of_touches (h : Placed cfg accepted requests me stream) {c : Container} (hc : c ∈ stream) {id : Int}
    (ht : c.Touches id) : id ∈ accepted.map NewOrderSingle.id := by
  rcases ht with ht | ⟨t, rfl, ht⟩
  · obtain ⟨-, -, o, ho, he, -⟩ := h.closed c hc id ht
    exact List.mem_map.2 ⟨o, ho, he⟩
  · obtain ⟨taker, htk, maker, hmk, hb⟩ := h.trades t hc
    rcases ht with rfl | rfl
    · exact List.mem_map.2 ⟨taker, htk, hb.taker_id⟩
    · exact List.mem_map.2 ⟨maker, hmk, hb.maker_id⟩

/-- A book holds accepted orders only. -/
private theorem absent_of_new (h : Placed cfg accepted requests me stream) {id : Int}
    (hid : id ∉ accepted.map NewOrderSingle.id) : me.Absent id := by
  intro symbol b hb
  cases hix : b.orderIdMap id with
  | none => rfl
  | some a =>
    obtain ⟨n, hn, rfl, -⟩ := (h.engine_ok.book_ok symbol b hb).1.exists_node hix
    obtain ⟨o, ho, hr⟩ := h.resting symbol b hb n hn
    exact absurd (List.mem_map.2 ⟨o, ho, hr.id_eq⟩) hid

theorem start : Placed cfg [] [] (.new cfg.activeSymbols) [] where
  engine_ok := MatchingEngine.new_ok _
  admitted _ h := by cases h
  nodup := List.nodup_nil
  kinds _ h := by cases h
  requested_nodup := List.nodup_nil
  requested_absent _ h := by cases h
  resting symbol b hb n hn := by
    simp only [MatchingEngine.new] at hb
    split at hb
    · cases hb; cases hn
    · cases hb
  trades _ h := by cases h
  closing := List.Pairwise.nil
  closed _ h := by cases h
  live_le _ h := by cases h
  live_eq _ h := by cases h

/-- An order that is accepted leaves the others alone. -/
theorem live_accept (hnew : o.id ∉ accepted.map NewOrderSingle.id)
    {o' : NewOrderSingle} (ho' : o' ∈ accepted) :
    live (requests ++ [.newOrderSingle o]) me stream o' = live requests me stream o' := by
  have hne : o.id ≠ o'.id := fun he => hnew (List.mem_map.2 ⟨o', ho', he.symm⟩)
  rw [live, live, requestedQty_append, requestedQty_cons_newOrder, if_neg hne]
  simp [requestedQty]

theorem live_accept_self (h : Placed cfg accepted requests me stream) (hnew : o.id ∉ accepted.map NewOrderSingle.id) :
    live (requests ++ [.newOrderSingle o]) me stream o = o.orderQty := by
  have h1 : amountOf stream o.id = 0 := amountOf_eq_zero fun c hc ht => hnew (h.accepted_of_touches hc ht)
  have h2 := MatchingEngine.restingQty_eq_zero h.engine_ok (h.absent_of_new hnew) o.symbol
  have h3 : requestedQty requests o.id = 0 := requestedQty_eq_zero fun hm => by
    obtain ⟨o', ho', he⟩ := List.mem_map.1 hm
    exact hnew (List.mem_map.2 ⟨o', h.mem_accepted ho', he⟩)
  rw [live, h1, h2, requestedQty_append, h3, requestedQty_cons_newOrder, if_pos rfl]
  simp [requestedQty]

/-- A new order is accepted. -/
theorem accept (h : Placed cfg accepted requests me stream) (ho : o.Admitted cfg)
    (hnew : o.id ∉ accepted.map NewOrderSingle.id) :
    Placed cfg (accepted ++ [o]) (requests ++ [.newOrderSingle o]) me stream := by
  have hreq : requested (requests ++ [.newOrderSingle o]) = requested requests ++ [o] := by rw [requested_append]; rfl
  have hsub : ∀ {o'}, o' ∈ accepted → o' ∈ accepted ++ [o] := fun h => List.mem_append_left _ h
  have hne : ∀ o' ∈ accepted, o.id ≠ o'.id := fun o' ho' he => hnew (List.mem_map.2 ⟨o', ho', he.symm⟩)
  have hrnew : o.id ∉ (requested requests).map NewOrderSingle.id := by
    intro hm
    obtain ⟨o', ho', he⟩ := List.mem_map.1 hm
    exact hne o' (h.mem_accepted ho') he.symm
  have hlive : ∀ {o'}, o' ∈ accepted → live (requests ++ [.newOrderSingle o]) me stream o' =
      live requests me stream o' :=
    fun ho' => live_accept hnew ho'
  have hlive₀ := h.live_accept_self hnew
  refine ⟨h.engine_ok, ?_, ?_, ?_, ?_, ?_, ?_, ?_, h.closing, ?_, ?_, ?_⟩
  · intro o' ho'
    rcases List.mem_append.1 ho' with ho' | ho'
    · exact h.admitted o' ho'
    · rw [List.mem_singleton.1 ho']; exact ho
  · exact nodup_map_concat h.nodup hnew
  · intro c hc
    rcases List.mem_append.1 hc with hc | hc
    · exact (h.kinds c hc).imp_left fun ⟨o', ho', he⟩ => ⟨o', hsub ho', he⟩
    · exact Or.inl ⟨o, by simp, List.mem_singleton.1 hc⟩
  · rw [hreq]
    exact nodup_map_concat h.requested_nodup hrnew
  · intro o' ho'
    rw [hreq] at ho'
    rcases List.mem_append.1 ho' with ho' | ho'
    · exact h.requested_absent o' ho'
    · rw [List.mem_singleton.1 ho']; exact h.absent_of_new hnew
  · intro symbol b hb n hn
    obtain ⟨o', ho', hr⟩ := h.resting symbol b hb n hn
    exact ⟨o', hsub ho', hr⟩
  · intro t ht
    obtain ⟨taker, htk, maker, hmk, hb⟩ := h.trades t ht
    exact ⟨taker, hsub htk, maker, hsub hmk, hb⟩
  · intro c hc id hid
    obtain ⟨h1, h2, o', ho', rfl, hp⟩ := h.closed c hc id hid
    refine ⟨?_, h2, o', hsub ho', rfl, hp⟩
    rw [hreq, List.map_append, List.mem_append, not_or]
    exact ⟨h1, by simpa using (hne o' ho').symm⟩
  · intro o' ho'
    rcases List.mem_append.1 ho' with ho' | ho'
    · rw [hlive ho']; exact h.live_le o' ho'
    · rw [List.mem_singleton.1 ho', hlive₀]
  · intro o' ho'
    rcases List.mem_append.1 ho' with ho' | ho'
    · rw [hlive ho', hreq]
      refine (h.live_eq o' ho').imp_right (Or.imp_right fun ⟨h1, h2⟩ => ⟨h1, ?_⟩)
      rw [List.map_append, List.mem_append, not_or]
      exact ⟨h2, by simpa using (hne o' ho').symm⟩
    · rw [List.mem_singleton.1 ho']; exact Or.inl hlive₀

/-- Only the new orders among the requests matter. -/
private theorem of_requested (h : Placed cfg accepted requests me stream) {requests' : List Container}
    (hk : ∀ c ∈ requests',
      (∃ o ∈ accepted, c = .newOrderSingle o) ∨ (∃ r, c = .cancelOrderRequest r) ∨ ∃ q, c = .fillCostQuery q)
    (hr : requested requests' = requested requests) : Placed cfg accepted requests' me stream where
  engine_ok := h.engine_ok
  admitted := h.admitted
  nodup := h.nodup
  kinds := hk
  requested_nodup := hr ▸ h.requested_nodup
  requested_absent := hr ▸ h.requested_absent
  resting := h.resting
  trades := h.trades
  closing := h.closing
  closed := hr ▸ h.closed
  live_le o ho := by rw [live, requestedQty, hr]; exact h.live_le o ho
  live_eq o ho := by rw [live, requestedQty, hr]; exact h.live_eq o ho

/-- A cancellation or a query is sent. -/
theorem send (h : Placed cfg accepted requests me stream) {c : Container}
    (hc : (∃ r, c = .cancelOrderRequest r) ∨ ∃ q, c = .fillCostQuery q) :
    Placed cfg accepted (requests ++ [c]) me stream := by
  refine h.of_requested (fun d hd => ?_) ?_
  · rcases List.mem_append.1 hd with hd | hd
    · exact h.kinds d hd
    · rw [List.mem_singleton.1 hd]; exact Or.inr hc
  · rw [requested_append]
    rcases hc with ⟨r, rfl⟩ | ⟨q, rfl⟩ <;> exact List.append_nil _

/-- A cancellation or a query is taken. -/
theorem take {c : Container} (h : Placed cfg accepted (c :: requests) me stream)
    (hc : (∃ r, c = .cancelOrderRequest r) ∨ ∃ q, c = .fillCostQuery q) : Placed cfg accepted requests me stream := by
  refine h.of_requested (fun d hd => h.kinds d (List.mem_cons_of_mem _ hd)) ?_
  rcases hc with ⟨r, rfl⟩ | ⟨q, rfl⟩ <;> rfl

theorem live_respond {c : Container} (hc : ∀ id, ¬ c.Touches id) (o : NewOrderSingle) :
    live requests me (stream ++ [c]) o = live requests me stream o := by
  rw [live, live, amountOf_append, amountOf_cons, amountFor_eq_zero (hc o.id), amountOf_nil, Int.add_zero,
    Int.add_zero]

/-- A response that is about no order. -/
theorem respond (h : Placed cfg accepted requests me stream) {c : Container} (hc : ∀ id, ¬ c.Touches id) :
    Placed cfg accepted requests me (stream ++ [c]) := by
  have hclosed : ∀ id, c.closed? ≠ some id := fun id he => hc id (Or.inl he)
  have hlive : ∀ o, live requests me (stream ++ [c]) o = live requests me stream o := live_respond hc
  refine ⟨h.engine_ok, h.admitted, h.nodup, h.kinds, h.requested_nodup, h.requested_absent, h.resting, ?_, ?_, ?_,
    ?_, ?_⟩
  · intro t ht
    rcases List.mem_append.1 ht with ht | ht
    · exact h.trades t ht
    · exact absurd (Or.inr ⟨t, (List.mem_singleton.1 ht).symm, Or.inl rfl⟩) (hc t.takerOrderId)
  · rw [List.pairwise_append]
    refine ⟨h.closing, List.pairwise_singleton _ _, fun d _ c' hc' id _ => ?_⟩
    rw [List.mem_singleton.1 hc']
    exact hc id
  · intro d hd id hid
    rcases List.mem_append.1 hd with hd | hd
    · exact h.closed d hd id hid
    · rw [List.mem_singleton.1 hd] at hid
      exact absurd hid (hclosed id)
  · intro o ho
    rw [hlive]; exact h.live_le o ho
  · intro o ho
    rw [hlive]
    exact (h.live_eq o ho).imp_right (Or.imp_left fun ⟨d, hd, he⟩ => ⟨d, List.mem_append_left _ hd, he⟩)

/-- A book is replaced by one in which only accepted orders rest. -/
theorem resting_setBook (h : Placed cfg accepted requests me stream) {symbol : String} {b' : LimitOrderBook}
    (hnew : ∀ n ∈ b'.nodes, ∃ o ∈ accepted, o.RestsAs symbol n.order) :
    ∀ symbol' b₁, (me.setBook symbol b').limitOrderBooks symbol' = some b₁ → ∀ n ∈ b₁.nodes,
      ∃ o ∈ accepted, o.RestsAs symbol' n.order := by
  intro symbol' b₁ hb₁ n hn
  rw [MatchingEngine.limitOrderBooks_setBook] at hb₁
  split at hb₁
  · rename_i hs
    cases hb₁
    exact hs ▸ hnew n hn
  · exact h.resting symbol' b₁ hb₁ n hn

/-! ### Matching -/

section matching

variable {id : Int} {b b' : LimitOrderBook} {draw : Nat → Stamp}

/-- A maker of an incoming order rests in its book, and comes from an accepted order. -/
theorem maker (h : Placed cfg accepted requests me stream) (hb : me.limitOrderBooks o.symbol = some b)
    (hq : 0 < o.orderQty) {f : Node × Int} (hf : f ∈ b.fills (o.taker id) o.orderQty) :
    f.1 ∈ b.nodes ∧ ∃ maker ∈ accepted, maker.RestsAs o.symbol f.1.order := by
  have hmem : f.1 ∈ b.nodes := (mem_nodes o.side).2 (Or.inl ((h.engine_ok.book_ok _ b hb).1.mem_fills hq.le hf).1)
  exact ⟨hmem, h.resting o.symbol b hb f.1 hmem⟩

/-- The trades of an incoming order are between it and accepted orders that rest. -/
theorem fillTrades_between (h : Placed cfg accepted requests me stream) (ho : o ∈ accepted) (hid : o.id = id)
    (hb : me.limitOrderBooks o.symbol = some b) (habs : me.Absent o.id) (hq : 0 < o.orderQty) {t : TradeContainer}
    (ht : t ∈ fillTrades draw o.symbol (o.taker id) (b.fills (o.taker id) o.orderQty)) :
    ∃ maker ∈ accepted, t.Between o maker ∧ ∃ n ∈ b.nodes, n.order.orderId = t.makerOrderId := by
  obtain ⟨f, hf, tradeId, rfl⟩ := mem_fillTrades ht
  have hbok := (h.engine_ok.book_ok _ b hb).1
  obtain ⟨hfar, hcross, hpos⟩ := hbok.mem_fills hq.le hf
  obtain ⟨hmem, maker, hmk, hr⟩ := h.maker hb hq hf
  obtain ⟨hnode, hprice, -⟩ := hbok.node_ok hfar
  have hadmitted := h.admitted o ho
  refine ⟨maker, hmk, ?_, f.1, hmem, rfl⟩
  exact {
    taker_id := hid
    maker_id := hr.id_eq
    ids_ne := fun he => hbok.not_resting (habs _ b hb) f.1 hmem (he.symm.trans hid.symm)
    taker_symbol := hadmitted.upToNul_symbol.symm
    maker_symbol := hr.symbol_eq.trans hadmitted.upToNul_symbol.symm
    taker_side := by
      have : (fillTrade o.symbol (o.taker id) f).isTakerBuyer = decide (o.side = .bid) := rfl
      simp only [this]
      cases o.side <;> rfl
    maker_side := hr.side_eq.trans hnode.side_eq
    taker_sender := hadmitted.upToNul_sender.symm
    maker_sender := by
      have hmaker : CString.upToNul f.1.order.traderId = maker.senderCompId :=
        hr.sender_eq ▸ (h.admitted maker hmk).upToNul_sender
      exact hmaker.symm
    maker_price := hr.price_eq
    crosses := by rw [hid]; exact hcross
    price_pos := hprice
    quantity_pos := hpos }

/-- Matching moves quantity from one place to another; only a remainder at a reserved price is lost. -/
theorem live_matched (h : Placed cfg accepted (.newOrderSingle o :: requests) me stream) (draw : Nat → Stamp)
    (hid : o.id = id) (hb : me.limitOrderBooks o.symbol = some b) (hq : 0 < o.orderQty)
    (hm : b.Matched (o.taker id) o.orderQty b') {o' : NewOrderSingle} (ho' : o' ∈ accepted) :
    live requests (me.setBook o.symbol b')
        (stream ++ (fillTrades draw o.symbol (o.taker id) (b.fills (o.taker id) o.orderQty)).map .trade) o' =
      live (.newOrderSingle o :: requests) me stream o' -
        if id = o'.id ∧ ¬ b.Rests (o.taker id) o.orderQty then b.remainder (o.taker id) o.orderQty else 0 := by
  have ho := h.mem_accepted (o := o) (by simp)
  have hkey : (o.taker id).orderId = id := rfl
  rw [live, live, amountOf_append, amountOf_fillTrades, sum_fills, hkey, requestedQty_cons_newOrder, hid,
    MatchingEngine.restingQty_setBook]
  -- what the makers give leaves the book and appears in the stream
  by_cases hs : o'.symbol = o.symbol
  · have hrest : me.restingQty o'.symbol o'.id = totalAt nodeLots.key nodeLots.cap b.nodes o'.id := by
      rw [MatchingEngine.restingQty, hs, hb]
    rw [if_pos hs, hrest, hm.held hq.le, hkey]
    by_cases he : id = o'.id
    · subst he
      by_cases hr : b.Rests (o.taker o'.id) o.orderQty <;> simp [hr] <;> omega
    · rw [if_neg he, if_neg he, if_neg (fun hc => he hc.2), if_neg (fun hc => he hc.1)]
      omega
  · -- another symbol: neither the taker nor one of its makers
    have hne : id ≠ o'.id := fun he => hs (by rw [h.eq_of_id ho' ho (he.symm.trans hid.symm)])
    have htaken : totalAt (fun f => nodeLots.key f.1) Prod.snd (b.fills (o.taker id) o.orderQty) o'.id = 0 := by
      refine totalAt_eq_zero fun f hf he => ?_
      obtain ⟨-, maker, hmk, hr⟩ := h.maker hb hq hf
      have heq : maker = o' := h.eq_of_id hmk ho' (hr.id_eq.trans he)
      exact hs (heq ▸ hr.symbol_eq)
    rw [if_neg hs, htaken]
    simp [hne]

/-- An order that is not yet matched has not been closed. -/
private theorem closed_ne (h : Placed cfg accepted (.newOrderSingle o :: requests) me stream) {c : Container}
    (hc : c ∈ stream) {id' : Int} (hcl : c.closed? = some id') : id' ≠ o.id := by
  rintro rfl
  exact (h.closed c hc _ hcl).1 (by simp)

/-- After matching, an order has its full quantity somewhere, or it is closed, or its price is reserved. -/
private theorem live_eq_matched (h : Placed cfg accepted (.newOrderSingle o :: requests) me stream)
    (draw : Nat → Stamp) (hid : o.id = id) (hb : me.limitOrderBooks o.symbol = some b) (hq : 0 < o.orderQty)
    (hm : b.Matched (o.taker id) o.orderQty b') (hnew : o.id ∉ (requested requests).map NewOrderSingle.id)
    {o' : NewOrderSingle} (ho' : o' ∈ accepted) :
    let stream' := stream ++ (fillTrades draw o.symbol (o.taker id) (b.fills (o.taker id) o.orderQty)).map .trade
    live requests (me.setBook o.symbol b') stream' o' = o'.orderQty ∨ (∃ c ∈ stream', c.closed? = some o'.id) ∨
      (o'.Reserved ∧ o'.id ∉ (requested requests).map NewOrderSingle.id) := by
  intro stream'
  have ho := h.mem_accepted (o := o) (by simp)
  rw [h.live_matched draw hid hb hq hm ho']
  by_cases hlost : id = o'.id ∧ ¬ b.Rests (o.taker id) o.orderQty
  · -- the taker, with a remainder that is not kept: there is none, or the price is reserved
    have heq : o' = o := h.eq_of_id ho' ho (hlost.1.symm.trans hid.symm)
    subst heq
    rw [if_pos hlost]
    rcases h.live_eq o' ho' with hl | ⟨c, hc, hcl⟩ | ⟨-, hl⟩
    · have hrem : 0 ≤ b.remainder (o'.taker id) o'.orderQty := nodeLots.unmet_nonneg hq.le _
      rcases hrem.eq_or_lt with h0 | h0
      · left; omega
      · right; right
        refine ⟨?_, hnew⟩
        by_contra hres
        exact hlost.2 ⟨h0, fun he => hres (Or.inl he), fun he => hres (Or.inr he)⟩
    · exact absurd rfl (h.closed_ne hc hcl)
    · exact absurd (by simp) hl
  · rw [if_neg hlost, Int.sub_zero]
    refine (h.live_eq o' ho').imp_right (Or.imp (fun ⟨c, hc, hcl⟩ => ⟨c, List.mem_append_left _ hc, hcl⟩) ?_)
    exact fun ⟨h1, h2⟩ => ⟨h1, fun hm => h2 (List.mem_cons_of_mem _ hm)⟩

/-- Trades between the order and orders that rest touch no order that was closed before. -/
private theorem closing_matched (h : Placed cfg accepted (.newOrderSingle o :: requests) me stream)
    (hb : me.limitOrderBooks o.symbol = some b) {new : List Container}
    (hnew : ∀ d ∈ new, ∃ t, d = .trade t ∧ ∃ maker ∈ accepted, t.Between o maker ∧
      ∃ n ∈ b.nodes, n.order.orderId = t.makerOrderId) :
    (stream ++ new).Pairwise fun c d => ∀ id, c.closed? = some id → ¬ d.Touches id := by
  have hopen : ∀ c ∈ new, c.closed? = none := by
    intro c hc
    obtain ⟨t, rfl, -⟩ := hnew c hc
    rfl
  rw [List.pairwise_append]
  refine ⟨h.closing, ?_, ?_⟩
  · refine List.Pairwise.imp_of_mem (R := fun _ _ => True) (fun {c d} hc _ _ id' hcl => ?_)
      (List.pairwise_of_forall fun _ _ => trivial)
    rw [hopen c hc] at hcl
    cases hcl
  · rintro c hc d hd id' hcl (hd' | ⟨t, rfl, htouch⟩)
    · obtain ⟨t, rfl, -⟩ := hnew d hd
      cases hd'
    · obtain ⟨t', he, maker, -, hbt, n, hn, hno⟩ := hnew _ hd
      cases he
      rcases htouch with rfl | rfl
      · exact h.closed_ne hc hcl hbt.taker_id.symm
      · exact (h.engine_ok.book_ok _ b hb).1.not_resting ((h.closed c hc _ hcl).2.1 _ b hb) n hn hno

/-- A new order is matched. -/
theorem matched (h : Placed cfg accepted (.newOrderSingle o :: requests) me stream) (hid : o.orderId = some id)
    (hb : me.limitOrderBooks o.symbol = some b) (hq : 0 < o.orderQty) (hm : b.Matched (o.taker id) o.orderQty b')
    (hok : (me.setBook o.symbol b').Ok cfg.activeSymbols) :
    Placed cfg accepted requests (me.setBook o.symbol b')
      (stream ++ (fillTrades draw o.symbol (o.taker id) (b.fills (o.taker id) o.orderQty)).map .trade) := by
  have hid' : o.id = id := by rw [NewOrderSingle.id, hid]; rfl
  have ho := h.mem_accepted (o := o) (by simp)
  have habs : me.Absent o.id := h.requested_absent o (by simp)
  have hnd := h.requested_nodup
  rw [requested_cons_newOrder, List.map_cons, List.nodup_cons] at hnd
  have habs' : ∀ {id'}, me.Absent id' → id' ≠ o.id → (me.setBook o.symbol b').Absent id' := fun ha hne =>
    ha.setBook (hm.index_none (ha _ b hb) (by rw [← hid'] at hm; exact hid' ▸ hne))
  -- every new response is a trade between `o` and an order that rested
  have hnew : ∀ d ∈ (fillTrades draw o.symbol (o.taker id) (b.fills (o.taker id) o.orderQty)).map Container.trade,
      ∃ t, d = .trade t ∧ ∃ maker ∈ accepted, t.Between o maker ∧
      ∃ n ∈ b.nodes, n.order.orderId = t.makerOrderId := by
    intro d hd
    obtain ⟨t, ht, rfl⟩ := List.mem_map.1 hd
    exact ⟨t, rfl, h.fillTrades_between ho hid' hb habs hq ht⟩
  exact
    { engine_ok := hok
      admitted := h.admitted
      nodup := h.nodup
      kinds := fun c hc => h.kinds c (List.mem_cons_of_mem _ hc)
      requested_nodup := hnd.2
      requested_absent := by
        intro o' ho'
        refine habs' (h.requested_absent o' (List.mem_cons_of_mem _ ho')) fun he => hnd.1 ?_
        exact List.mem_map.2 ⟨o', ho', he⟩
      resting := by
        refine h.resting_setBook fun n hn => ?_
        rcases hm.mem_nodes hq.le hn with ⟨m, hmem, k, rfl⟩ | ⟨hr, rfl⟩
        · obtain ⟨o', ho', hr⟩ := h.resting o.symbol b hb m hmem
          exact ⟨o', ho', hr.cut k⟩
        · have hres : ¬ o.Reserved := fun hres => hres.elim hr.2.1 hr.2.2
          exact ⟨o, ho, hid', rfl, rfl, o.price_eq_of_not_reserved hres, rfl⟩
      trades := by
        intro t ht
        rcases List.mem_append.1 ht with ht | ht
        · exact h.trades t ht
        · obtain ⟨t', he, maker, hmk, hbt, -⟩ := hnew _ ht
          cases he
          exact ⟨o, ho, maker, hmk, hbt⟩
      closing := h.closing_matched hb hnew
      closed := by
        intro c hc id' hcl
        rcases List.mem_append.1 hc with hc | hc
        · obtain ⟨h1, h2, h3⟩ := h.closed c hc id' hcl
          exact ⟨fun hm => h1 (List.mem_cons_of_mem _ hm), habs' h2 (h.closed_ne hc hcl), h3⟩
        · obtain ⟨t, rfl, -⟩ := hnew c hc
          cases hcl
      live_le := by
        intro o' ho'
        have hrem : 0 ≤ b.remainder (o.taker id) o.orderQty := nodeLots.unmet_nonneg hq.le _
        rw [h.live_matched draw hid' hb hq hm ho']
        have := h.live_le o' ho'
        split <;> omega
      live_eq := fun o' ho' => h.live_eq_matched draw hid' hb hq hm hnd.1 ho' }

end matching

/-! ### Cancelling -/

/-- An id that is indexed in a book belongs to an accepted order of its symbol. -/
private theorem exists_accepted (h : Placed cfg accepted requests me stream) {symbol : String} {id : Int}
    {b : LimitOrderBook} (hb : me.limitOrderBooks symbol = some b) (hix : b.orderIdMap id ≠ none) :
    ∃ o ∈ accepted, o.id = id ∧ o.symbol = symbol := by
  obtain ⟨a, ha⟩ := Option.ne_none_iff_exists'.1 hix
  obtain ⟨n, hn, hnid, -⟩ := (h.engine_ok.book_ok symbol b hb).1.exists_node ha
  obtain ⟨o, ho, hr⟩ := h.resting symbol b hb n hn
  exact ⟨o, ho, hr.id_eq.trans hnid, hr.symbol_eq⟩

/-- A cancellation takes away what rests of the order. -/
theorem live_cancelled (h : Placed cfg accepted requests me stream) {symbol : String} {id : Int}
    {b b' : LimitOrderBook} (hb : me.limitOrderBooks symbol = some b) (hix : b.orderIdMap id ≠ none)
    (hc : b.Cancelled id b') (clOrdId : Int) {o' : NewOrderSingle} (ho' : o' ∈ accepted) :
    live requests (me.setBook symbol b') (stream ++ [.cancelOrderResponse ⟨id, clOrdId, true⟩]) o' =
      live requests me stream o' - if o'.id = id then me.restingQty symbol id else 0 := by
  have hzero : amountOf [.cancelOrderResponse ⟨id, clOrdId, true⟩] o'.id = 0 := rfl
  rw [live, live, amountOf_append, MatchingEngine.restingQty_setBook, hzero]
  by_cases hs : o'.symbol = symbol
  · have hrest : me.restingQty o'.symbol o'.id = totalAt nodeLots.key nodeLots.cap b.nodes o'.id := by
      rw [MatchingEngine.restingQty, hs, hb]
    rw [if_pos hs, hc.held, ← hs]
    split
    · rename_i he; rw [← he]; omega
    · omega
  · -- another symbol: the cancelled order is another one
    have hne : o'.id ≠ id := by
      intro he
      obtain ⟨o, ho, hid, hsym⟩ := h.exists_accepted hb hix
      exact hs (h.eq_of_id ho' ho (he.trans hid.symm) ▸ hsym)
    rw [if_neg hs, if_neg hne]
    omega

/-- A cancelled order rests under no symbol. -/
private theorem absent_cancelled (h : Placed cfg accepted requests me stream) {symbol : String} {id : Int}
    {b b' : LimitOrderBook} (hb : me.limitOrderBooks symbol = some b) (hix : b.orderIdMap id ≠ none)
    (hc : b.Cancelled id b') : (me.setBook symbol b').Absent id := by
  intro symbol' b₁ hb₁
  rw [MatchingEngine.limitOrderBooks_setBook] at hb₁
  split at hb₁
  · cases hb₁
    rw [hc.index_eq, eraseId, Function.update_self]
  · rename_i hne
    cases hix₁ : b₁.orderIdMap id with
    | none => rfl
    | some a₁ =>
      -- the id would rest under two symbols
      obtain ⟨o, ho, hid, hsym⟩ := h.exists_accepted hb hix
      obtain ⟨o₁, ho₁, hid₁, hsym₁⟩ := h.exists_accepted hb₁ (by rw [hix₁]; exact Option.some_ne_none _)
      have heq := h.eq_of_id ho₁ ho (hid₁.trans hid.symm)
      exact absurd (hsym₁.symm.trans (heq ▸ hsym)) hne

/-- A resting order is cancelled: it rests nowhere any more, and the report closes it. -/
theorem cancelled (h : Placed cfg accepted requests me stream) {symbol : String} {id clOrdId : Int}
    {b b' : LimitOrderBook} (hb : me.limitOrderBooks symbol = some b) (hix : b.orderIdMap id ≠ none)
    (hc : b.Cancelled id b') (hok : (me.setBook symbol b').Ok cfg.activeSymbols) :
    Placed cfg accepted requests (me.setBook symbol b') (stream ++ [.cancelOrderResponse ⟨id, clOrdId, true⟩]) := by
  obtain ⟨a, ha⟩ := Option.ne_none_iff_exists'.1 hix
  obtain ⟨n, hn, hnid, -⟩ := (h.engine_ok.book_ok symbol b hb).1.exists_node ha
  obtain ⟨o, ho, hr⟩ := h.resting symbol b hb n hn
  have hkeep : ∀ {id'}, me.Absent id' → (me.setBook symbol b').Absent id' := by
    intro id' habs
    refine habs.setBook ?_
    rw [hc.index_eq, eraseId, Function.update_apply, habs symbol b hb, ite_self]
  have hnotreq : id ∉ (requested requests).map NewOrderSingle.id := by
    intro hm
    obtain ⟨o', ho', he⟩ := List.mem_map.1 hm
    exact hix (he ▸ h.requested_absent o' ho' symbol b hb)
  have hlive := fun {o'} (ho' : o' ∈ accepted) => h.live_cancelled hb hix hc clOrdId ho'
  exact
    { engine_ok := hok
      admitted := h.admitted
      nodup := h.nodup
      kinds := h.kinds
      requested_nodup := h.requested_nodup
      requested_absent := fun o' ho' => hkeep (h.requested_absent o' ho')
      resting := h.resting_setBook fun m hm => h.resting symbol b hb m (List.mem_of_mem_filter (hc.nodes_eq ▸ hm))
      trades := by
        intro t ht
        rcases List.mem_append.1 ht with ht | ht
        · exact h.trades t ht
        · cases List.mem_singleton.1 ht
      closing := by
        rw [List.pairwise_append]
        refine ⟨h.closing, List.pairwise_singleton _ _, fun c hcs d hd id' hcl => ?_⟩
        rw [List.mem_singleton.1 hd]
        rintro (he | ⟨t, ht, -⟩)
        · cases he
          exact hix ((h.closed c hcs id hcl).2.1 symbol b hb)
        · cases ht
      closed := by
        intro c hcs id' hcl
        rcases List.mem_append.1 hcs with hcs | hcs
        · obtain ⟨h1, h2, h3⟩ := h.closed c hcs id' hcl
          exact ⟨h1, hkeep h2, h3⟩
        · rw [List.mem_singleton.1 hcs] at hcl
          cases hcl
          exact ⟨hnotreq, h.absent_cancelled hb hix hc, o, ho, hr.id_eq.trans hnid,
            by rw [hr.price_eq]; exact Option.some_ne_none _⟩
      live_le := by
        intro o' ho'
        rw [hlive ho']
        have h1 := h.live_le o' ho'
        have h2 := MatchingEngine.restingQty_nonneg h.engine_ok symbol id
        split <;> omega
      live_eq := by
        intro o' ho'
        rw [hlive ho']
        by_cases he : o'.id = id
        · exact Or.inr (Or.inl ⟨_, List.mem_append_right _ (List.mem_singleton.2 rfl), by rw [he]; rfl⟩)
        · rw [if_neg he, Int.sub_zero]
          rcases h.live_eq o' ho' with hl | ⟨c, hcs, hcl⟩ | hres
          · exact Or.inl hl
          · exact Or.inr (Or.inl ⟨c, List.mem_append_left _ hcs, hcl⟩)
          · exact Or.inr (Or.inr hres) }

end Placed

end Elsa
