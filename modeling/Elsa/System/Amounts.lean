import Elsa.System.Agreement

/-!
# Amounts of money in 32 bits

Validation reserves the price of a bid times its quantity in 64 bits; settlement multiplies prices and quantities in
32 bits. The cancellation of a large bid therefore gives back less than was reserved (`settlement_exact_large_bid`).

What an order can pay or receive is bounded when the engine takes it (`exposure`): a limit bid pays its limit at
most, other orders trade at the prices they find in the book, and a remainder at its own limit.  As long as these
bounds fit 32 bits, every amount in the settlement of trades and cancellations is the exact one.
-/

namespace Elsa

open Base LimitOrderBook

/-! ### Turnover -/

/-- What a trade pays for an order. -/
def Container.costFor : Container → Int → Int
  | .trade t, id => t.price * t.amountFor id
  | _, _ => 0

/-- What the trades among some responses pay for an order. -/
def turnover (cs : List Container) (id : Int) : Int := (cs.map fun c => c.costFor id).sum

@[simp] theorem turnover_nil (id : Int) : turnover [] id = 0 := rfl

private theorem turnover_append (cs ds : List Container) (id : Int) :
    turnover (cs ++ ds) id = turnover cs id + turnover ds id := by
  simp [turnover]

private theorem turnover_cons (c : Container) (cs : List Container) (id : Int) :
    turnover (c :: cs) id = c.costFor id + turnover cs id := rfl

private theorem turnover_eq_zero {cs : List Container} {id : Int} (h : ∀ c ∈ cs, ¬ c.Touches id) :
    turnover cs id = 0 := by
  refine List.sum_eq_zero fun x hx => ?_
  obtain ⟨c, hc, rfl⟩ := List.mem_map.1 hx
  have := amountFor_eq_zero (h c hc)
  cases c with
  | trade t => exact (congrArg (t.price * ·) this).trans (Int.mul_zero _)
  | _ => rfl

private theorem TradeContainer.amountFor_nonneg {t : TradeContainer} (h : 0 < t.quantity) (id : Int) :
    0 ≤ t.amountFor id := by
  unfold amountFor
  split <;> split <;> omega

/-- A trade moves its quantity for each of its two orders. -/
theorem TradeContainer.Between.amountFor_eq {t : TradeContainer} {taker maker : NewOrderSingle}
    (h : t.Between taker maker) {id : Int} (ht : t.takerOrderId = id ∨ t.makerOrderId = id) :
    t.amountFor id = t.quantity := by
  unfold amountFor
  rcases ht with ht | ht
  · rw [if_pos ht, if_neg (fun he => h.ids_ne (ht.trans he.symm)), Int.add_zero]
  · rw [if_pos ht, if_neg (fun he => h.ids_ne (he.trans ht.symm)), Int.zero_add]

/-- Trades at no more than a price. -/
private theorem turnover_le {cs : List Container} {id price : Int}
    (h : ∀ t, .trade t ∈ cs → 0 < t.quantity ∧ ((t.takerOrderId = id ∨ t.makerOrderId = id) → t.price ≤ price)) :
    turnover cs id ≤ price * amountOf cs id := by
  induction cs with
  | nil => simp
  | cons c cs ih =>
    have hrest := ih fun t ht => h t (List.mem_cons_of_mem _ ht)
    have hone : c.costFor id ≤ price * c.amountFor id := by
      cases c with
      | trade t =>
        obtain ⟨hpos, hprice⟩ := h t (by simp)
        by_cases ht : t.takerOrderId = id ∨ t.makerOrderId = id
        · exact Int.mul_le_mul_of_nonneg_right (hprice ht) (t.amountFor_nonneg hpos id)
        · have hzero : t.amountFor id = 0 := by
            rw [not_or] at ht
            simp [TradeContainer.amountFor, ht.1, ht.2]
          simp [Container.costFor, Container.amountFor, hzero]
      | _ => exact (Int.mul_zero price).ge
    rw [turnover_cons, amountOf_cons, Int.mul_add]
    exact Int.add_le_add hone hrest

/-- What the trades of an incoming order pay for it. -/
private theorem turnover_fillTrades {t : Taker} {fs : List (Node × Int)} (h : ∀ f ∈ fs, f.1.order.orderId ≠ t.orderId)
    (draw : Nat → Stamp) (ticker : String) :
    turnover ((fillTrades draw ticker t fs).map .trade) t.orderId = costOf fs := by
  have hmap : ((fillTrades draw ticker t fs).map Container.trade).map (fun c => c.costFor t.orderId) =
      fs.map fun f => (fillTrade ticker t f).price * (fillTrade ticker t f).amountFor t.orderId := by
    rw [List.map_map]
    exact map_fillTrades (fun tc => tc.price * tc.amountFor t.orderId) (fun _ _ => rfl) draw ticker t fs
  rw [turnover, hmap, costOf]
  refine congrArg List.sum (List.map_congr_left fun f hf => ?_)
  have hamount : (fillTrade ticker t f).amountFor t.orderId = f.2 := by
    show (if t.orderId = t.orderId then f.2 else 0) + (if f.1.order.orderId = t.orderId then f.2 else 0) = f.2
    rw [if_pos rfl, if_neg (h f hf), Int.add_zero]
  rw [hamount]
  rfl

/-! ### Average prices -/

namespace OrderInfo

variable {A : Arith} {info : OrderInfo} {price quantity paid : Int}

/-- The average price of an entry is at most what was paid, on average. -/
structure Averages (info : OrderInfo) (paid : Int) : Prop where
  nonneg : 0 ≤ info.avgPx
  le : info.avgPx * info.cumQty ≤ paid

/-- A trade fits an entry: its quantity is open, and what was paid with it fits 32 bits. -/
structure CanFill (info : OrderInfo) (paid price quantity : Int) : Prop where
  averages : info.Averages paid
  cum_nonneg : 0 ≤ info.cumQty
  leaves_le : quantity ≤ info.leavesQty ∧ info.leavesQty + info.cumQty ≤ 2147483647
  price_pos : 0 < price
  quantity_pos : 0 < quantity
  paid_le : paid + price * quantity ≤ 2147483647

namespace CanFill

private theorem terms_nonneg (h : info.CanFill paid price quantity) :
    0 ≤ info.avgPx * info.cumQty ∧ 0 < price * quantity :=
  ⟨Int.mul_nonneg h.averages.nonneg h.cum_nonneg, Int.mul_pos h.price_pos h.quantity_pos⟩

private theorem cost_eq (h : info.CanFill paid price quantity) : A.int (price * quantity) = price * quantity := by
  obtain ⟨h0, h1⟩ := h.terms_nonneg
  have := h.averages.le
  have := h.paid_le
  exact A.int_eq _ ⟨by omega, by omega⟩

/-- The numerator of the next average. -/
private theorem numerator_eq (h : info.CanFill paid price quantity) :
    A.int (A.int (info.avgPx * info.cumQty) + A.int (price * quantity)) =
      info.avgPx * info.cumQty + price * quantity := by
  obtain ⟨h0, h1⟩ := h.terms_nonneg
  have := h.averages.le
  have := h.paid_le
  rw [h.cost_eq, A.int_eq (info.avgPx * info.cumQty) ⟨by omega, by omega⟩, A.int_eq _ ⟨by omega, by omega⟩]

private theorem denominator_eq (h : info.CanFill paid price quantity) :
    A.int (quantity + info.cumQty) = quantity + info.cumQty := by
  have := h.leaves_le
  have := h.cum_nonneg
  have := h.quantity_pos
  exact A.int_eq _ ⟨by omega, by omega⟩

/-- Filling the entry is exact. -/
private theorem filled_eq (h : info.CanFill paid price quantity) : info.filled A price quantity = { info with
    avgPx := (info.avgPx * info.cumQty + price * quantity) / (quantity + info.cumQty)
    leavesQty := info.leavesQty - quantity
    cumQty := info.cumQty + quantity } := by
  obtain ⟨h0, h1⟩ := h.terms_nonneg
  have := h.averages.le
  have := h.paid_le
  have := h.leaves_le
  have := h.cum_nonneg
  have := h.quantity_pos
  have hn : 0 ≤ info.avgPx * info.cumQty + price * quantity := by omega
  have hdiv := Int.ediv_nonneg hn (b := quantity + info.cumQty) (by omega)
  have hself := Int.ediv_le_self (quantity + info.cumQty) hn
  rw [filled, h.numerator_eq, h.denominator_eq, Int.tdiv_eq_ediv_of_nonneg hn,
    A.int_eq (_ / _) ⟨by omega, by omega⟩, A.int_eq (info.leavesQty - quantity) ⟨by omega, by omega⟩,
    A.int_eq (info.cumQty + quantity) ⟨by omega, by omega⟩]

theorem filled (h : info.CanFill paid price quantity) :
    (info.filled A price quantity).Averages (paid + price * quantity) := by
  obtain ⟨h0, h1⟩ := h.terms_nonneg
  have hle := h.averages.le
  have hcum := h.cum_nonneg
  have hq := h.quantity_pos
  rw [h.filled_eq]
  refine ⟨Int.ediv_nonneg (by omega) (by omega), ?_⟩
  have := Int.ediv_mul_le (info.avgPx * info.cumQty + price * quantity) (b := quantity + info.cumQty) (by omega)
  show _ / _ * (info.cumQty + quantity) ≤ _
  rw [Int.add_comm info.cumQty]
  omega

end CanFill

end OrderInfo

/-- The 32-bit operations on an entry are exact. -/
private theorem applyTradeTo_machine {infos : Int → Option OrderInfo} {id price quantity : Int}
    (h : ∀ info, infos id = some info → ∃ paid, info.CanFill paid price quantity) :
    applyTradeTo .machine infos id price quantity = applyTradeTo .machine64 infos id price quantity := by
  unfold applyTradeTo
  refine bind_congr_ok fun info hinfo => ?_
  obtain ⟨paid, hfill⟩ := h info (orFail_eq_ok.1 hinfo)
  have happly : ∀ A : Arith, info.applyTrade A price quantity = (do
      require (quantity + info.cumQty ≠ 0) .divisionByZero
      return info.filled .exact price quantity) := by
    intro A
    have hexact : info.filled A price quantity = info.filled .exact price quantity := by
      rw [hfill.filled_eq, hfill.filled_eq]
    rw [← hexact, OrderInfo.applyTrade, hfill.denominator_eq, OrderInfo.filled, hfill.denominator_eq]
  rw [happly, happly]

/-! ### Exposure -/

namespace LimitOrderBook

/-- The most that an order can pay or receive when the engine takes it. -/
def exposure (b : LimitOrderBook) (o : NewOrderSingle) : Int :=
  match o.side, o.price with
  | .bid, some price => price * o.orderQty
  | _, price => costOf (b.fills (o.taker o.id) o.orderQty) + price.getD 0 * b.remainder (o.taker o.id) o.orderQty

private theorem Ok.cost_le_exposure {b : LimitOrderBook} (h : b.Ok) {o : NewOrderSingle} (hq : 0 ≤ o.orderQty) :
    costOf (b.fills (o.taker o.id) o.orderQty) + o.price.getD 0 * b.remainder (o.taker o.id) o.orderQty ≤
      b.exposure o := by
  unfold exposure
  split
  · rename_i price hside hprice
    -- the makers of a limit bid ask for its limit at most
    have hmaker : ∀ f ∈ b.fills (o.taker o.id) o.orderQty, f.1.order.price * f.2 ≤ price * f.2 := by
      intro f hf
      obtain ⟨-, hcross, hpos⟩ := h.mem_fills hq hf
      have hle : f.1.order.price ≤ o.enginePrice := by simpa [Taker.Crosses, NewOrderSingle.taker, hside] using hcross
      rw [NewOrderSingle.enginePrice, hprice] at hle
      exact Int.mul_le_mul_of_nonneg_right hle hpos.le
    have hcost : costOf (b.fills (o.taker o.id) o.orderQty) ≤
        price * (o.orderQty - b.remainder (o.taker o.id) o.orderQty) := by
      have hsum := List.sum_le_sum hmaker
      rwa [List.sum_map_mul_left, sum_fills] at hsum
    rw [Int.mul_sub] at hcost
    rw [hprice, Option.getD_some]
    omega
  · exact le_refl _

end LimitOrderBook

/-- The bounds of an order that the engine has taken. -/
structure NewOrderSingle.Bounded (o : NewOrderSingle) (me : MatchingEngine) (stream : List Container) : Prop where
  reserve_le : ∀ price, o.side = .bid → o.price = some price → price * o.orderQty ≤ 2147483647
  turnover_le : turnover stream o.id + o.price.getD 0 * me.restingQty o.symbol o.id ≤ 2147483647

/-- A response that pays nothing is sent, and nothing more rests. -/
theorem NewOrderSingle.Bounded.respond {o : NewOrderSingle} {me me' : MatchingEngine} {stream : List Container}
    (h : o.Bounded me stream) (hprice : 0 ≤ o.price.getD 0) {c : Container} (hc : c.costFor o.id = 0)
    (hle : me'.restingQty o.symbol o.id ≤ me.restingQty o.symbol o.id) : o.Bounded me' (stream ++ [c]) := by
  refine ⟨h.reserve_le, ?_⟩
  have hmul := Int.mul_le_mul_of_nonneg_left hle hprice
  have := h.turnover_le
  rw [turnover_append, turnover_cons, hc, turnover_nil]
  omega

namespace Placed

variable {cfg : Config} {accepted : List NewOrderSingle} {requests : List Container} {me : MatchingEngine}
  {stream : List Container} {o : NewOrderSingle}

/-- An order on its way has not traded. -/
private theorem untouched_of_requested (h : Placed cfg accepted requests me stream) (ho : o ∈ requested requests) :
    ∀ c ∈ stream, ¬ c.Touches o.id := by
  rintro c hc (hcl | ⟨t, rfl, ht⟩)
  · exact (h.closed c hc o.id hcl).1 (List.mem_map.2 ⟨o, ho, rfl⟩)
  · have hacc := h.mem_accepted ho
    obtain ⟨taker, -, maker, -, hb⟩ := h.trades t hc
    have hpos := hb.quantity_pos
    have hamount := hb.amountFor_eq ht
    have hle : t.amountFor o.id ≤ amountOf stream o.id := by
      obtain ⟨xs, ys, rfl⟩ := List.append_of_mem hc
      have h1 : 0 ≤ amountOf xs o.id := h.amountOf_nonneg (fun c hc => List.mem_append_left _ hc) o.id
      have h2 : 0 ≤ amountOf ys o.id :=
        h.amountOf_nonneg (fun c hc => List.mem_append_right _ (List.mem_cons_of_mem _ hc)) o.id
      have h3 : (Container.trade t).amountFor o.id = t.amountFor o.id := rfl
      rw [amountOf_append, amountOf_cons]
      omega
    have hreq : requestedQty requests o.id = o.orderQty := totalAt_of_mem h.requested_nodup ho
    have hlive := h.live_le o hacc
    have hrest := MatchingEngine.restingQty_nonneg h.engine_ok o.symbol o.id
    unfold live at hlive
    omega

/-- An order that has traded, or whose cancellation is reported, was taken. -/
private theorem taken_of_touches (h : Placed cfg accepted requests me stream) {c : Container} (hc : c ∈ stream)
    {id : Int} (ht : c.Touches id) : id ∉ (requested requests).map NewOrderSingle.id := by
  intro hm
  obtain ⟨o, ho, rfl⟩ := List.mem_map.1 hm
  exact h.untouched_of_requested ho c hc ht

variable {id : Int} {b b' : LimitOrderBook}

private theorem price_nonneg (h : Placed cfg accepted requests me stream) (ho : o ∈ accepted) :
    0 ≤ o.price.getD 0 := by
  cases hp : o.price with
  | none => exact le_refl 0
  | some p => exact ((h.admitted o ho).price_range p hp).1.le

/-- An order that is matched is within its exposure. -/
private theorem bounded_taker (h : Placed cfg accepted (.newOrderSingle o :: requests) me stream) (draw : Nat → Stamp)
    (hid : o.id = id) (hb : me.limitOrderBooks o.symbol = some b) (hq : 0 < o.orderQty)
    (hm : b.Matched (o.taker id) o.orderQty b') (hfit : b.exposure o ≤ 2147483647) :
    o.Bounded (me.setBook o.symbol b')
      (stream ++ (fillTrades draw o.symbol (o.taker id) (b.fills (o.taker id) o.orderQty)).map .trade) := by
  subst hid
  have hreq : o ∈ requested (.newOrderSingle o :: requests) := by simp
  have ho := h.mem_accepted hreq
  have hbok := (h.engine_ok.book_ok _ b hb).1
  have habs := h.requested_absent o hreq
  have hmaker : ∀ f ∈ b.fills (o.taker o.id) o.orderQty, f.1.order.orderId ≠ (o.taker o.id).orderId := fun f hf =>
    hbok.not_resting (habs _ b hb) f.1 (h.maker hb hq hf).1
  refine ⟨fun price hside hprice => ?_, ?_⟩
  · rwa [exposure, hside, hprice] at hfit
  · have hnew := turnover_fillTrades hmaker draw o.symbol
    have hold := turnover_eq_zero (h.untouched_of_requested hreq)
    -- what rests of the order is its remainder, or nothing
    have hrest : (me.setBook o.symbol b').restingQty o.symbol o.id ≤ b.remainder (o.taker o.id) o.orderQty := by
      have hlive := h.live_matched draw rfl hb hq hm ho
      have hkey : (o.taker o.id).orderId = o.id := rfl
      have hmade : totalAt (fun f => nodeLots.key f.1) Prod.snd (b.fills (o.taker o.id) o.orderQty) o.id = 0 :=
        totalAt_eq_zero hmaker
      rw [live, amountOf_append, amountOf_fillTrades, hkey, if_pos rfl, hmade, sum_fills] at hlive
      have hle := h.live_le o ho
      have h1 : 0 ≤ amountOf stream o.id := h.amountOf_nonneg (fun _ hc => hc) o.id
      have h2 : 0 ≤ requestedQty requests o.id := by
        refine totalAt_nonneg (fun o' ho' => ?_) o.id
        exact (h.admitted o' (h.mem_accepted (List.mem_cons_of_mem _ ho'))).qty_pos.le
      have h3 : 0 ≤ b.remainder (o.taker o.id) o.orderQty := nodeLots.unmet_nonneg hq.le _
      split at hlive <;> omega
    have hcost := hbok.cost_le_exposure hq.le
    have hmul := Int.mul_le_mul_of_nonneg_left hrest (h.price_nonneg ho)
    rw [turnover_append, hold, show turnover _ o.id = _ from hnew]
    omega

/-- What a maker is paid comes from what rested of it, at its own price. -/
private theorem bounded_maker (h : Placed cfg accepted (.newOrderSingle o :: requests) me stream) (draw : Nat → Stamp)
    (hid : o.id = id) (hb : me.limitOrderBooks o.symbol = some b) (hq : 0 < o.orderQty)
    (hm : b.Matched (o.taker id) o.orderQty b') {o' : NewOrderSingle} (ho' : o' ∈ accepted) (hne : o'.id ≠ o.id)
    (hbd : o'.Bounded me stream) :
    o'.Bounded (me.setBook o.symbol b')
      (stream ++ (fillTrades draw o.symbol (o.taker id) (b.fills (o.taker id) o.orderQty)).map .trade) := by
  refine ⟨hbd.reserve_le, ?_⟩
  -- the order trades as a maker only, at its own price
  have hnew : turnover ((fillTrades draw o.symbol (o.taker id) (b.fills (o.taker id) o.orderQty)).map .trade) o'.id ≤
      o'.price.getD 0 *
        amountOf ((fillTrades draw o.symbol (o.taker id) (b.fills (o.taker id) o.orderQty)).map .trade) o'.id := by
    refine Elsa.turnover_le fun t ht => ?_
    obtain ⟨t', ht', he⟩ := List.mem_map.1 ht
    cases he
    obtain ⟨maker, hmk, hbt, -⟩ :=
      h.fillTrades_between (h.mem_accepted (o := o) (by simp)) hid hb (h.requested_absent o (by simp)) hq ht'
    refine ⟨hbt.quantity_pos, fun htouch => ?_⟩
    have hmo : maker = o' := by
      refine h.eq_of_id hmk ho' (hbt.maker_id.trans (htouch.resolve_left fun he => hne ?_))
      exact he.symm.trans hbt.taker_id.symm
    rw [← hmo, hbt.maker_price]
    exact le_refl _
  have hrest : (me.setBook o.symbol b').restingQty o'.symbol o'.id = me.restingQty o'.symbol o'.id -
      amountOf ((fillTrades draw o.symbol (o.taker id) (b.fills (o.taker id) o.orderQty)).map .trade) o'.id := by
    have hlive := h.live_matched draw hid hb hq hm ho'
    rw [live, live, amountOf_append, requestedQty_cons_newOrder, if_neg (Ne.symm hne),
      if_neg fun hc => hne (hc.1.symm.trans hid.symm)] at hlive
    omega
  have hold := hbd.turnover_le
  rw [turnover_append, hrest, Int.mul_sub]
  omega

private theorem turnover_nonneg (h : Placed cfg accepted requests me stream) {cs : List Container}
    (hsub : ∀ c ∈ cs, c ∈ stream) (id : Int) : 0 ≤ turnover cs id := by
  refine List.sum_nonneg fun x hx => ?_
  obtain ⟨c, hc, rfl⟩ := List.mem_map.1 hx
  cases c with
  | trade t =>
    obtain ⟨taker, -, maker, -, hb⟩ := h.trades t (hsub _ hc)
    exact Int.mul_nonneg hb.price_pos.le (t.amountFor_nonneg hb.quantity_pos id)
  | _ => exact le_refl 0

end Placed

namespace Exchange

/-- What the engine takes is within 32 bits. -/
def ExposureFits (s : Exchange) (e : Event) : Prop :=
  ∀ o ∈ (s.taken? e).bind Container.newOrder?, ∀ b ∈ s.me.limitOrderBooks o.symbol, b.exposure o ≤ 2147483647

instance (s : Exchange) (e : Event) : Decidable (ExposureFits s e) := by
  unfold ExposureFits
  infer_instance

/-- Every order that the engine has taken is within its bounds, and the average prices are right so far. -/
structure Bounded (s : Exchange) : Prop where
  taken : ∀ o ∈ s.history.accepted, o.id ∉ (requested s.requests).map NewOrderSingle.id → o.Bounded s.me s.stream
  averages : ∀ o ∈ s.history.accepted, ∀ info, s.om.orderInfoMap o.id = some info →
    info.Averages (turnover s.history.processed o.id)

variable {cfg : Config} {A : Arith} {s s' : Exchange} {o : NewOrderSingle} {t : TradeContainer}
  {responses : List Container}

theorem Bounded.congr (hk : s.Bounded) (hh : s'.history = s.history)
    (hreq : requested s'.requests = requested s.requests) (hme : s'.me = s.me) (hstream : s'.stream = s.stream)
    (hinfo : ∀ o ∈ s.history.accepted, s'.om.orderInfoMap o.id = s.om.orderInfoMap o.id) : s'.Bounded where
  taken o ho hn := by
    rw [hh] at ho
    rw [hreq] at hn
    rw [hme, hstream]
    exact hk.taken o ho hn
  averages o ho info hi := by
    rw [hh] at ho ⊢
    rw [hinfo o ho] at hi
    exact hk.averages o ho info hi

theorem Bounded.register (h : s.Agrees cfg) (hk : s.Bounded) (hid : s.nextId A = s.om.latestAssignedOrderId + 1)
    (o : NewOrderSingle) (userId gw : Int) : (s.register A o userId gw).Bounded := by
  refine hk.congr rfl rfl rfl rfl fun o' ho' => ?_
  obtain ⟨info, hinfo, -⟩ := h.recorded o' ho'
  rw [h.register_known hid hinfo, hinfo]

theorem Bounded.accept (h : s.Agrees cfg) (hk : s.Bounded) {gw : Int}
    (hinfo : s.om.orderInfoMap o.id = some (.ofNewOrder o gw))
    (hnew : o.id ∉ s.history.accepted.map NewOrderSingle.id) (bc : BalanceChecker) : (s.accept o bc).Bounded where
  taken o' ho' hn := by
    have hn' : o'.id ∉ (requested s.requests).map NewOrderSingle.id ∧ o'.id ≠ o.id := by
      simpa [Exchange.accept, requested, List.filterMap_append, Container.newOrder?] using hn
    rcases List.mem_append.1 ho' with ho' | ho'
    · exact hk.taken o' ho' (by simpa using hn'.1)
    · exact absurd (congrArg NewOrderSingle.id (List.mem_singleton.1 ho')) hn'.2
  averages o' ho' info hi := by
    rcases List.mem_append.1 ho' with ho' | ho'
    · exact hk.averages o' ho' info hi
    · rw [List.mem_singleton.1 ho'] at hi ⊢
      have hi' : s.om.orderInfoMap o.id = some info := hi
      rw [hinfo] at hi'
      cases hi'
      have hzero : turnover s.history.processed o.id = 0 := turnover_eq_zero fun c hc ht =>
        hnew (h.placed.accepted_of_touches (List.mem_append_left _ hc) ht)
      exact ⟨le_refl 0, hzero.ge⟩

/-- The entry of an order can take the trade at the head of the responses. -/
private theorem Bounded.canFill (h : s.Agrees cfg) (hk : s.Bounded) (hr : s.responses = .trade t :: responses)
    (ho : o ∈ s.history.accepted) (ht : t.takerOrderId = o.id ∨ t.makerOrderId = o.id) {info : OrderInfo}
    (hinfo : s.om.orderInfoMap o.id = some info) :
    info.CanFill (turnover s.history.processed o.id) t.price t.quantity := by
  obtain ⟨info', hinfo', hrec⟩ := h.recorded o ho
  rw [hinfo] at hinfo'
  cases hinfo'
  obtain ⟨taker, -, maker, -, hb⟩ := h.trade_between hr
  have hamount := hb.amountFor_eq ht
  obtain ⟨h0, hle⟩ := h.trade_le hr ho
  have hqty := (h.placed.admitted o ho).qty_le
  have hcum := hrec.cum_eq
  have hleaves := hrec.leaves_eq
  refine ⟨hk.averages o ho info hinfo, by omega, by omega, hb.price_pos, hb.quantity_pos, ?_⟩
  have hbound := (hk.taken o ho (h.placed.taken_of_touches (Agrees.mem_stream hr) (Or.inr ⟨t, rfl, ht⟩))).turnover_le
  have hrest := Int.mul_nonneg (h.placed.price_nonneg ho)
    (MatchingEngine.restingQty_nonneg h.placed.engine_ok o.symbol o.id)
  have hlater : 0 ≤ turnover responses o.id := h.placed.turnover_nonneg
    (fun c hc => List.mem_append_right _ (by rw [hr]; exact List.mem_cons_of_mem _ hc)) o.id
  have hcost : (Container.trade t).costFor o.id = t.price * t.quantity := by rw [← hamount]; rfl
  rw [stream, turnover_append, hr, turnover_cons, hcost] at hbound
  omega

/-- A response is processed; it remains to look at the average prices. -/
theorem Bounded.process (hk : s.Bounded) {c : Container} (hr : s.responses = c :: responses) {om : OrderManager}
    (hav : ∀ o ∈ s.history.accepted, ∀ info, om.orderInfoMap o.id = some info →
      info.Averages (turnover s.history.processed o.id + c.costFor o.id)) :
    Bounded { s with om, responses, history := s.history.process c } where
  taken o ho hn := by
    have := hk.taken o ho hn
    rwa [← Agrees.stream_eq hr] at this
  averages o ho info hinfo := by
    show info.Averages (turnover (s.history.processed ++ [c]) o.id)
    rw [turnover_append, turnover_cons, turnover_nil, Int.add_zero]
    exact hav o ho info hinfo

theorem Bounded.settle (h : s.Agrees cfg) (hk : s.Bounded) (hr : s.responses = .trade t :: responses)
    {om : OrderManager} (hu : updateInternalData A s.om (.trade t) = .ok om) :
    Bounded { s with om, responses, history := s.history.process (.trade t) } := by
  obtain ⟨taker, -, maker, -, hb⟩ := h.trade_between hr
  have hne := hb.ids_ne
  obtain ⟨tinfo, minfo, -, h1, h2, -, rfl⟩ := updateInternalData_trade_ok hne hu
  refine hk.process hr fun o ho info hinfo => ?_
  simp only [infosAfter, Function.update_apply] at hinfo
  simp only [Container.costFor, TradeContainer.amountFor]
  by_cases hm : o.id = t.makerOrderId
  · rw [if_pos hm] at hinfo
    cases hinfo
    rw [if_neg (fun he => hne (he.trans hm)), if_pos hm.symm, Int.zero_add]
    exact (hk.canFill h hr ho (Or.inr hm.symm) (hm ▸ h2)).filled
  · rw [if_neg hm] at hinfo
    rw [if_neg (Ne.symm hm), Int.add_zero]
    by_cases ht : o.id = t.takerOrderId
    · rw [if_pos ht] at hinfo
      cases hinfo
      rw [if_pos ht.symm]
      exact (hk.canFill h hr ho (Or.inl ht.symm) (ht ▸ h1)).filled
    · rw [if_neg ht] at hinfo
      rw [if_neg (Ne.symm ht), Int.mul_zero, Int.add_zero]
      exact hk.averages o ho info hinfo

/-- The engine takes a request. -/
theorem Bounded.engine (hk : s.Bounded) {me : MatchingEngine} {requests answers sent : List Container}
    (ht : ∀ o ∈ s.history.accepted, o.id ∉ (requested requests).map NewOrderSingle.id →
      o.Bounded me (s.stream ++ sent)) :
    Bounded { s with me, requests, answers, responses := s.responses ++ sent } where
  taken o ho hn := by
    rw [stream, ← List.append_assoc]
    exact ht o ho hn
  averages := hk.averages

theorem Bounded.move (h : s.Agrees cfg) (hk : s.Bounded) {e : Event} (hid : CounterFits A s e)
    (hfit : ExposureFits s e) (hm : Move cfg A s e s') : s'.Bounded := by
  cases hm with
  | refused => exact hk.congr rfl rfl rfl rfl fun _ _ => rfl
  | rejected o gw ids userId => exact hk.register h hid o userId gw
  | forwarded o gw ids userId bc hr hnm hv =>
    refine (hk.register h hid o userId gw).accept (h.register hid hr)
      ((h.register_info hid _).trans (if_pos rfl)) ?_ bc
    exact h.nextId_new hid
  | queried o gw ids userId =>
    exact (hk.register h hid o userId gw).congr rfl ((requested_append ..).trans (List.append_nil _)) rfl rfl
      fun _ _ => rfl
  | cancelRefused => exact hk
  | cancelForwarded =>
    exact hk.congr rfl ((requested_append ..).trans (List.append_nil _)) rfl rfl fun _ _ => rfl
  | answerRefused => exact hk.congr rfl rfl rfl rfl fun _ _ => rfl
  | answerAccepted o gw cost answers ids bc hw =>
    obtain ⟨-, hinfo, hnew⟩ := h.waiting o gw hw
    have hidle : Bounded { s with waiting := none, answers } := hk.congr rfl rfl rfl rfl fun _ _ => rfl
    exact hidle.accept (h.idle answers) hinfo hnew bc
  | matched o id b b' requests draw hr hoid hb hfree ht hq hmt =>
    have hp := h.placed
    rw [hr] at hp
    have hoid' : o.id = id := by rw [NewOrderSingle.id, hoid]; rfl
    have hexp := hfit o (by rw [taken?, hr]; rfl) b hb
    refine hk.engine fun o' ho' hn => ?_
    by_cases he : o'.id = o.id
    · obtain rfl := hp.eq_of_id ho' (hp.mem_accepted (by simp)) he
      exact hp.bounded_taker draw hoid' hb hq hmt hexp
    · refine hp.bounded_maker draw hoid' hb hq hmt ho' he (hk.taken o' ho' ?_)
      rw [hr]
      simpa using ⟨he, by simpa using hn⟩
  | cancelled c id b b' requests draw hr hcid hb hix hc =>
    have hp := h.placed
    rw [hr] at hp
    refine hk.engine fun o' ho' hn => ?_
    refine (hk.taken o' ho' (by rw [hr]; exact hn)).respond (h.placed.price_nonneg ho') rfl ?_
    have hlive := (hp.take (Or.inl ⟨c, rfl⟩)).live_cancelled hb hix hc c.clOrdId ho'
    have hzero : amountOf [.cancelOrderResponse ⟨id, c.clOrdId, true⟩] o'.id = 0 := rfl
    have hnn := MatchingEngine.restingQty_nonneg h.placed.engine_ok c.symbol id
    rw [live, live, amountOf_append, hzero] at hlive
    split at hlive <;> omega
  | cancelMissed c id requests draw hr =>
    refine hk.engine fun o' ho' hn => ?_
    exact (hk.taken o' ho' (by rw [hr]; exact hn)).respond (h.placed.price_nonneg ho') rfl (le_refl _)
  | quoted q b cost requests draw hr => exact hk.congr rfl (by rw [hr]; rfl) rfl rfl fun _ _ => rfl
  | settled t responses ids om hw hr hu => exact hk.settle h hr hu
  | confirmed id clOrdId responses ids om hw hr hu =>
    obtain ⟨info, price, bc, -, -, -, rfl⟩ := updateInternalData_cancel.1 hu
    exact hk.process hr fun o ho info hinfo => (Int.add_zero _).symm ▸ hk.averages o ho info hinfo
  | cancelFailed id clOrdId responses ids hw hr =>
    exact hk.process hr fun o ho info hinfo => (Int.add_zero _).symm ▸ hk.averages o ho info hinfo

/-! ### Settlement -/

/-- The amounts that settlement computes with prices are the exact ones: the numerators of the average prices, what
a buyer is refunded and a seller receives, and what a cancelled bid gets back. -/
def AmountsExact (A : Arith) (om : OrderManager) : Container → Prop
  | .trade t =>
    (∀ id ∈ [t.takerOrderId, t.makerOrderId], ∀ info ∈ om.orderInfoMap id,
      A.int (A.int (info.avgPx * info.cumQty) + A.int (t.price * t.quantity)) =
        info.avgPx * info.cumQty + t.price * t.quantity) ∧
    (∀ info ∈ om.orderInfoMap t.buyerOrderId, ∀ price ∈ info.price,
      A.int (A.int (price - t.price) * t.quantity) = (price - t.price) * t.quantity) ∧
    A.int (t.price * t.quantity) = t.price * t.quantity
  | .cancelOrderResponse r =>
    r.success = true → ∀ info ∈ om.orderInfoMap r.orderId, info.side = .bid → ∀ price ∈ info.price,
      A.int (price * info.leavesQty) = price * info.leavesQty
  | _ => True

instance (A : Arith) (om : OrderManager) : (c : Container) → Decidable (AmountsExact A om c)
  | .trade _ => inferInstanceAs (Decidable (_ ∧ _ ∧ _))
  | .cancelOrderResponse _ => inferInstanceAs (Decidable (_ → _))
  | .newOrderSingle _ | .cancelOrderRequest _ | .executionReport _ | .fillCostQuery _ | .fillCostResponse _ =>
    inferInstanceAs (Decidable True)

/-- A limit buyer who pays less is refunded the exact difference. -/
private theorem Bounded.improvement_eq (h : s.Agrees cfg) (hk : s.Bounded) (hr : s.responses = .trade t :: responses)
    {info : OrderInfo} (hinfo : s.om.orderInfoMap t.buyerOrderId = some info) {price : Int}
    (hprice : info.price = some price) :
    A.int (price - t.price) = price - t.price ∧
      A.int ((price - t.price) * t.quantity) = (price - t.price) * t.quantity := by
  obtain ⟨buyer, hb, seller, -, hp⟩ := h.trade_parties hr
  obtain ⟨info', hinfo', hrec⟩ := h.recorded buyer hb
  rw [hp.buyer_id, hinfo] at hinfo'
  cases hinfo'
  rw [hrec.price_eq] at hprice
  have htouch : t.takerOrderId = buyer.id ∨ t.makerOrderId = buyer.id := by
    rw [hp.buyer_id, TradeContainer.buyerOrderId]
    cases t.isTakerBuyer
    · exact Or.inr rfl
    · exact Or.inl rfl
  have hfill := hk.canFill h hr hb htouch (by rw [hp.buyer_id]; exact hinfo)
  have htaken := h.placed.taken_of_touches (Agrees.mem_stream hr) (Or.inr ⟨t, rfl, htouch⟩)
  have hreserve := (hk.taken buyer hb htaken).reserve_le price hp.buyer_side hprice
  have hle := hp.limit_le price hprice
  have hpos := hp.price_pos
  have hq := hp.quantity_pos
  have hrange := ((h.placed.admitted buyer hb).price_range price hprice).2
  have hopen : t.quantity ≤ buyer.orderQty := hfill.leaves_le.1.trans (h.leaves_range hb hrec).2
  -- the improvement is part of the reservation of the bid
  have hupper : (price - t.price) * t.quantity ≤ price * buyer.orderQty :=
    Int.mul_le_mul (by omega) hopen hq.le (by omega)
  have hlower : 0 ≤ (price - t.price) * t.quantity := Int.mul_nonneg (by omega) hq.le
  rw [marketBidOrderPrice] at hrange
  exact ⟨A.int_eq _ ⟨by omega, by omega⟩, A.int_eq _ ⟨by omega, by omega⟩⟩

/-- A cancelled bid gets the exact reservation of its open quantity back. -/
private theorem Bounded.release_eq (h : s.Agrees cfg) (hk : s.Bounded) {id clOrdId : Int}
    (hr : s.responses = .cancelOrderResponse ⟨id, clOrdId, true⟩ :: responses) {info : OrderInfo}
    (hinfo : s.om.orderInfoMap id = some info) (hside : info.side = .bid) {price : Int}
    (hprice : info.price = some price) : A.int (price * info.leavesQty) = price * info.leavesQty := by
  obtain ⟨hreq, -, o, ho, rfl, -⟩ := h.placed.closed _ (Agrees.mem_stream hr) id rfl
  obtain ⟨info', hinfo', hrec⟩ := h.recorded o ho
  rw [hinfo] at hinfo'
  cases hinfo'
  rw [hrec.side_eq] at hside
  rw [hrec.price_eq] at hprice
  have hreserve := (hk.taken o ho hreq).reserve_le price hside hprice
  have hpos := ((h.placed.admitted o ho).price_range price hprice).1
  have hleaves := h.leaves_range ho hrec
  have hupper : price * info.leavesQty ≤ price * o.orderQty := Int.mul_le_mul_of_nonneg_left hleaves.2 hpos.le
  have hlower : 0 ≤ price * info.leavesQty := Int.mul_nonneg hpos.le hleaves.1
  exact A.int_eq _ ⟨by omega, by omega⟩

/-- Both entries can take the trade at the head of the responses. -/
private theorem Bounded.canFill_either (h : s.Agrees cfg) (hk : s.Bounded) (hr : s.responses = .trade t :: responses)
    {id : Int} (hid : id ∈ [t.takerOrderId, t.makerOrderId]) {info : OrderInfo}
    (hinfo : s.om.orderInfoMap id = some info) :
    info.CanFill (turnover s.history.processed id) t.price t.quantity := by
  obtain ⟨taker, htk, maker, hmk, hb⟩ := h.trade_between hr
  simp only [List.mem_cons, List.not_mem_nil, or_false] at hid
  rcases hid with rfl | rfl
  · rw [← hb.taker_id] at hinfo ⊢
    exact hk.canFill h hr htk (Or.inl hb.taker_id.symm) hinfo
  · rw [← hb.maker_id] at hinfo ⊢
    exact hk.canFill h hr hmk (Or.inr hb.maker_id.symm) hinfo

private theorem Bounded.amountsExact (h : s.Agrees cfg) (hk : s.Bounded) {c : Container}
    (hr : s.responses = c :: responses) : AmountsExact A s.om c := by
  cases c with
  | trade t =>
    obtain ⟨taker, htk, maker, -, hb⟩ := h.trade_between hr
    obtain ⟨info, hinfo, -⟩ := h.recorded taker htk
    rw [hb.taker_id] at hinfo
    exact ⟨fun id hid info hinfo => (hk.canFill_either h hr hid hinfo).numerator_eq,
      fun info hinfo price hprice => by
        obtain ⟨h1, h2⟩ := hk.improvement_eq (A := A) h hr hinfo hprice
        rw [h1, h2],
      (hk.canFill_either h hr (by simp) hinfo).cost_eq⟩
  | cancelOrderResponse r =>
    obtain ⟨id, clOrdId, success⟩ := r
    intro hs info hinfo hside price hprice
    obtain rfl : success = true := hs
    exact hk.release_eq h hr hinfo hside hprice
  | _ => trivial

/-- The settlement is the one with exact 32-bit operations. -/
private theorem Bounded.update_eq (h : s.Agrees cfg) (hk : s.Bounded) {c : Container}
    (hr : s.responses = c :: responses) :
    updateInternalData .machine s.om c = updateInternalData .machine64 s.om c := by
  cases c with
  | trade t =>
    obtain ⟨taker, htk, maker, -, hb⟩ := h.trade_between hr
    obtain ⟨tinfo, htinfo, -⟩ := h.recorded taker htk
    rw [hb.taker_id] at htinfo
    unfold updateInternalData
    refine bind_congr_ok fun _ _ => ?_
    rw [applyTradeTo_machine fun info hinfo => ⟨_, hk.canFill_either h hr (by simp) hinfo⟩]
    refine bind_congr_ok fun infos hinfos => ?_
    obtain ⟨tinfo', ht, -, rfl⟩ := applyTradeTo_eq_ok_iff.1 hinfos
    rw [htinfo] at ht
    cases ht
    -- the entry of the maker is still the one before
    have hsame : ∀ x : Option OrderInfo, Function.update s.om.orderInfoMap t.takerOrderId x t.makerOrderId =
        s.om.orderInfoMap t.makerOrderId := fun x => Function.update_of_ne hb.ids_ne.symm ..
    rw [applyTradeTo_machine fun info hinfo => ⟨_, hk.canFill_either h hr (by simp) ((hsame _).symm.trans hinfo)⟩]
    refine bind_congr_ok fun infos hinfos => bind_congr_ok fun bc hbc => bind_congr_ok fun buyer hbuyer => ?_
    obtain ⟨minfo, hm, -, rfl⟩ := applyTradeTo_eq_ok_iff.1 hinfos
    obtain ⟨binfo, hbinfo, hbprice⟩ := infosAfter_price htinfo ((hsame _).symm.trans hm) (orFail_eq_ok.1 hbuyer)
    have hrefund : refundImprovement .machine bc buyer.price t = refundImprovement .machine64 bc buyer.price t := by
      cases hp : buyer.price with
      | none => rfl
      | some price =>
        have himp := fun A => hk.improvement_eq (A := A) h hr hbinfo (hbprice.symm.trans hp)
        simp only [refundImprovement, (himp _).1, (himp _).2]
        rfl
    rw [hrefund, (hk.canFill_either h hr (by simp) htinfo).cost_eq, (hk.canFill_either h hr (by simp) htinfo).cost_eq]
    rfl
  | cancelOrderResponse r =>
    obtain ⟨id, clOrdId, success⟩ := r
    cases success with
    | false => rfl
    | true =>
      simp only [updateInternalData, if_true]
      refine bind_congr_ok fun info hinfo => bind_congr_ok fun price hprice => ?_
      cases hside : info.side with
      | ask => rfl
      | bid =>
        have hrel := fun A => hk.release_eq (A := A) h hr (orFail_eq_ok.1 hinfo) hside (orFail_eq_ok.1 hprice)
        simp only [hrel]
        rfl
  | _ => rfl

/-- The reservation of a bid is taken in 64 bits, where it always fits. -/
private theorem reservation_eq (ho : o.Admitted cfg) {price : Int} (hprice : o.price = some price) :
    Arith.machine.int64 (Arith.machine.int64 (-price) * o.orderQty) = -(price * o.orderQty) := by
  obtain ⟨h0, h1⟩ := ho.price_range price hprice
  rw [marketBidOrderPrice] at h1
  have hpos : 0 < price * o.orderQty := Int.mul_pos h0 ho.qty_pos
  have hle : price * o.orderQty ≤ 2147483647 * 2147483647 := Int.mul_le_mul h1 ho.qty_le ho.qty_pos.le (by omega)
  rw [Arith.machine.int64_eq (-price) ⟨by omega, by omega⟩, Int.neg_mul]
  exact Arith.machine.int64_eq _ ⟨by omega, by omega⟩

/-- The steps of a run whose orders stay within 32 bits. -/
abbrev StaysIn32 (s : Exchange) (e : Event) : Prop := Fed e ∧ CounterFits .machine s e ∧ ExposureFits s e

/-- Whatever response is next, its amounts are the exact ones, and the order manager settles it as if its 32-bit
operations were exact; every bid has reserved its price for its quantity. -/
theorem settlement_exact {balances : BalanceChecker}
    (h : Reach (step cfg .machine) StaysIn32 (start cfg balances) s) :
    (∀ c responses, s.responses = c :: responses → AmountsExact .machine s.om c ∧
      updateInternalData .machine s.om c = updateInternalData .machine64 s.om c) ∧
    ∀ o ∈ s.history.accepted, o.side = .bid → ∀ price, o.price = some price →
      Arith.machine.int64 (Arith.machine.int64 (-price) * o.orderQty) = -(price * o.orderQty) := by
  obtain ⟨ha, hk⟩ := invariant_of_moves (I := Bounded) (fun _ _ hg => ⟨hg.1, hg.2.1⟩) h
    ⟨fun _ ho => (by cases ho), fun _ ho => (by cases ho)⟩
    fun _ _ _ ha hk hg hm => hk.move ha hg.2.1 hg.2.2 hm
  refine ⟨fun c responses hr => ⟨hk.amountsExact ha hr, hk.update_eq ha hr⟩, fun o ho _ price hprice => ?_⟩
  exact reservation_eq (ha.placed.admitted o ho) hprice

/-- A trade of four shares is next. -/
theorem settlement_exact_sampleTrading : ∃ s : Exchange,
    Reach (step twoUsers .machine) StaysIn32 (start twoUsers twoBalances) s ∧
      ∃ t, s.responses = [.trade t] ∧ t.price * t.quantity = 400 ∧ AmountsExact .machine s.om (.trade t) := by
  have hrun : (execIf (step twoUsers .machine) StaysIn32 (start twoUsers twoBalances) sampleTrading).any (fun s =>
      decide (s.responses = [.trade ⟨"GME", 100, 4, Stamp.zero.tradeId, "ann", "bob", 1, 0, true⟩])) = true := by
    decide +kernel
  obtain ⟨s, hreach, h⟩ := Reach.exists_of_execIf hrun
  have hr := of_decide_eq_true h
  exact ⟨s, hreach, _, hr, by decide, ((settlement_exact hreach).1 _ [] hr).1⟩

/-- `ann` has ten billion. -/
def largeBalances : BalanceChecker := fun u =>
  if u = "ann" then some fun tk => if tk = "USD" then some 10000000000 else none else none

/-- `ann` bids ten million for five hundred shares and cancels the bid: five billion were reserved, and seven
hundred million come back. -/
theorem settlement_exact_large_bid : ∃ s s' : Exchange,
    Reach (step twoUsers .machine) (fun s e => Fed e ∧ CounterFits .machine s e) (start twoUsers largeBalances) s ∧
      s.responses = [.cancelOrderResponse ⟨0, 2, true⟩] ∧
      ¬ AmountsExact .machine s.om (.cancelOrderResponse ⟨0, 2, true⟩) ∧
      s.step twoUsers .machine (.response noIds) = some s' ∧
      s.om.balanceChecker.entry "ann" usdSymbol = some 5000000000 ∧
      s'.om.balanceChecker.entry "ann" usdSymbol = some 5705032704 := by
  have hrun : (execIf (step twoUsers .machine) (fun s e => Fed e ∧ CounterFits .machine s e)
      (start twoUsers largeBalances)
      [.request (.newOrderSingle ⟨"ann", "GME_SERVER", none, 1, "GME", .bid, 500, .limit, some 10000000, .day⟩) 0
      noIds, .matching zeroStamps,
        .request (.cancelOrderRequest ⟨"ann", "GME_SERVER", none, 1, 2, "GME", .bid, 500⟩) 0 noIds,
        .matching zeroStamps]).any (fun s =>
      decide (s.responses = [.cancelOrderResponse ⟨0, 2, true⟩]) &&
        decide (¬ AmountsExact .machine s.om (.cancelOrderResponse ⟨0, 2, true⟩)) &&
        decide (s.om.balanceChecker.entry "ann" usdSymbol = some 5000000000) &&
        (s.step twoUsers .machine (.response noIds)).any (fun s' =>
          decide (s'.om.balanceChecker.entry "ann" usdSymbol = some 5705032704))) = true := by decide +kernel
  obtain ⟨s, hreach, h⟩ := Reach.exists_of_execIf hrun
  simp only [Bool.and_eq_true, decide_eq_true_eq] at h
  obtain ⟨s', hs', h'⟩ := (Option.any_eq_true _ _).1 h.2
  exact ⟨s, s', hreach, h.1.1.1, h.1.1.2, hs', h.1.2, of_decide_eq_true h'⟩

end Exchange

end Elsa
