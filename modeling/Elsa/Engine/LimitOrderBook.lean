import Elsa.Base.SortedMap
import Elsa.Base.Steps
import Elsa.Core.SharedRecords

/-!
# The limit order book

`LimitOrderBook` of the matching engine: two ordered maps from prices to lists of orders and an index from order ids
into the lists.  A list element is a `Node`; the iterators that `order_id_map` holds are the addresses of nodes,
handed out in turn by `nextNode`.  `add_order` runs `match_order`: the outer loop takes the best level of the far
side (`matchLevels`), the inner one the orders of that level from the front (`fillLevel`), and what remains of a
limit order is stored at the tail of its own price level.  `get_fill_cost` adds up the levels that a market order
would go through, and `get_top_order_book_level_aggregate` lists the best of them.

Failures are those of the source: contracts, the assertions of the `Trade` constructor, lookups of missing keys.
-/

namespace Elsa

open Base

/-- `std::numeric_limits<int>::max()`, the price of a market bid. -/
def marketBidOrderPrice : Int := 2147483647

/-- `std::numeric_limits<int>::min()`, the price of a market ask. -/
def marketAskOrderPrice : Int := -2147483648

structure Order where
  orderId : Int
  price : Int
  quantity : Int
  side : Side
  traderId : String
deriving DecidableEq, Repr

/-- `Order::fill`. -/
def Order.fill (o : Order) (fillQuantity : Int) : Except Fault Order := do
  require (fillQuantity ≤ o.quantity) (.contract .fill)
  return { o with quantity := o.quantity - fillQuantity }

/-! ### Trades -/

/-- What `create_trade` draws from outside: a canonical UUID text, the clock and what the memory of the trade held. -/
structure Stamp where
  tradeId : String
  createTimestamp : Nat
  memory : RawTrade
  tradeId_length : tradeId.utf8ByteSize = 36
  tradeId_nulFree : CString.NulFree tradeId

/-- The nil UUID at time zero, in memory that was cleared. -/
def Stamp.zero : Stamp where
  tradeId := "00000000-0000-0000-0000-000000000000"
  createTimestamp := 0
  memory := ⟨List.replicate 37 0, List.replicate 16 0, List.replicate 16 0, by decide, by decide, by decide⟩
  tradeId_length := by decide
  tradeId_nulFree := by decide

def createTrade (stamp : Stamp) (takerOrderId makerOrderId : Int) (takerId makerId ticker : String)
    (price quantity : Int) (takerSide : Side) : Except Fault Trade := do
  require (0 ≤ takerOrderId ∧ 0 ≤ makerOrderId ∧ takerOrderId ≠ makerOrderId ∧ takerId ≠ "" ∧ makerId ≠ "" ∧
    ticker ≠ "" ∧ 0 < price ∧ 0 < quantity) (.contract .createTrade)
  Trade.make stamp.memory
    { ticker, price, quantity, tradeId := stamp.tradeId, takerId, makerId, takerOrderId, makerOrderId,
      isTakerBuyer := takerSide = .bid, createTimestamp := stamp.createTimestamp }

/-! ### The book -/

/-- An element of an order list, at its address. -/
structure Node where
  addr : Nat
  order : Order
deriving DecidableEq, Repr

/-- `std::map<int, std::list<Order>>`. -/
abbrev SideContainer := SortedMap Int (List Node)

structure LimitOrderBook where
  ticker : String
  bids : SideContainer
  asks : SideContainer
  orderIdMap : Int → Option Nat
  nextNode : Nat

namespace LimitOrderBook

def new (ticker : String) : LimitOrderBook := ⟨ticker, .empty, .empty, fun _ => none, 0⟩

def getSide (b : LimitOrderBook) : Side → SideContainer
  | .bid => b.bids
  | .ask => b.asks

def setSide (b : LimitOrderBook) (s : Side) (m : SideContainer) : LimitOrderBook :=
  match s with
  | .bid => { b with bids := m }
  | .ask => { b with asks := m }

end LimitOrderBook

/-- The arguments of `match_order` that its loops do not change. -/
structure Taker where
  orderId : Int
  price : Int
  side : Side
  brokerId : String
deriving DecidableEq, Repr

/-- The variables of `match_order` that both loops change, with the trades of this call. -/
structure Progress where
  orderIdMap : Int → Option Nat
  remainingQuantity : Int
  trades : List Trade

def eraseId (index : Int → Option Nat) (id : Int) : Int → Option Nat := Function.update index id none

/-- `create_trade` as `match_order` calls it: the taker's id and broker, the maker's id, trader and price. -/
def tradeWith (draw : Nat → Stamp) (ticker : String) (t : Taker) (k : Nat) (maker : Order) (quantity : Int) :
    Except Fault Trade :=
  createTrade (draw k) t.orderId maker.orderId t.brokerId maker.traderId ticker maker.price quantity t.side

/-- The inner loop of `match_order`, over the orders of the best level. -/
def fillLevel (draw : Nat → Stamp) (ticker : String) (t : Taker) :
    List Node → Progress → Except Fault (List Node × Progress)
  | [], p => .ok ([], p)
  | n :: ns, p =>
    if 0 < p.remainingQuantity then
      if n.order.quantity ≤ p.remainingQuantity then do
        let trade ← tradeWith draw ticker t p.trades.length n.order n.order.quantity
        fillLevel draw ticker t ns
          { orderIdMap := eraseId p.orderIdMap n.order.orderId
            remainingQuantity := p.remainingQuantity - n.order.quantity
            trades := p.trades ++ [trade] }
      else do
        let order ← n.order.fill p.remainingQuantity
        let trade ← tradeWith draw ticker t p.trades.length order p.remainingQuantity
        .ok ({ n with order := order } :: ns,
          { p with remainingQuantity := 0, trades := p.trades ++ [trade] })
    else .ok (n :: ns, p)

/-- `begin()` of the asks for a bid, `prev(end())` of the bids for an ask. -/
def bestLevel (side : Side) (farSide : SideContainer) : Option (Int × List Node) :=
  match side with
  | .bid => farSide.entries.head?
  | .ask => farSide.entries.getLast?

/-- The outer loop of `match_order`.  An iteration that does not end the loop erases a level, so the number of levels
bounds the iterations. -/
def matchLevels (draw : Nat → Stamp) (ticker : String) (t : Taker) :
    Nat → SideContainer → Progress → Except Fault (SideContainer × Progress)
  | 0, far, p => .ok (far, p)
  | fuel + 1, far, p =>
    if 0 < p.remainingQuantity then
      match bestLevel t.side far with
      | none => .ok (far, p)
      | some (bestLevelPrice, orders) =>
        if (t.side = .bid ∧ t.price < bestLevelPrice) ∨ (t.side = .ask ∧ t.price > bestLevelPrice) then .ok (far, p)
        else do
          let (orders', p') ← fillLevel draw ticker t orders p
          matchLevels draw ticker t fuel
            (if orders' = [] then far.erase bestLevelPrice else far.insert bestLevelPrice orders') p'
    else .ok (far, p)

namespace LimitOrderBook

/-- `near_side[price].emplace(near_side[price].end(), ...)` and the index entry for it. -/
def restOrder (b : LimitOrderBook) (o : Order) : LimitOrderBook :=
  let near := b.getSide o.side
  let level := (near.find? o.price).getD []
  { b.setSide o.side (near.insert o.price (level ++ [⟨b.nextNode, o⟩])) with
    orderIdMap := Function.update b.orderIdMap o.orderId (some b.nextNode)
    nextNode := b.nextNode + 1 }

def matchOrder (draw : Nat → Stamp) (b : LimitOrderBook) (t : Taker) (quantity : Int) :
    Except Fault (LimitOrderBook × List Trade) := do
  let far := b.getSide t.side.opposite
  let (far', p) ← matchLevels draw b.ticker t far.size far ⟨b.orderIdMap, quantity, []⟩
  let b' := { b.setSide t.side.opposite far' with orderIdMap := p.orderIdMap }
  if 0 < p.remainingQuantity ∧ t.price ≠ marketBidOrderPrice ∧ t.price ≠ marketAskOrderPrice then
    return (b'.restOrder ⟨t.orderId, t.price, p.remainingQuantity, t.side, t.brokerId⟩, p.trades)
  else
    return (b', p.trades)

/-- `add_order`: the new book and the trades appended to `trade_events`. -/
def addOrder (draw : Nat → Stamp) (b : LimitOrderBook) (orderId price quantity : Int) (side : Side)
    (brokerId : String) : Except Fault (LimitOrderBook × List Trade) := do
  require (0 ≤ orderId ∧ b.orderIdMap orderId = none ∧ (price = marketAskOrderPrice ∨ 0 < price) ∧ 0 < quantity ∧
    brokerId ≠ "") (.contract .addOrder)
  b.matchOrder draw ⟨orderId, price, side, brokerId⟩ quantity

/-- The nodes of a side by increasing price. -/
def nodesOf (m : SideContainer) : List Node := m.entries.flatMap Prod.snd

/-- The node an iterator points to. -/
def deref (b : LimitOrderBook) (addr : Nat) : Option Node :=
  (nodesOf b.bids ++ nodesOf b.asks).find? (fun n => n.addr = addr)

def orderIdExists (b : LimitOrderBook) (orderId : Int) : Bool := (b.orderIdMap orderId).isSome

def cancelOrder (b : LimitOrderBook) (orderId : Int) : Except Fault LimitOrderBook := do
  require (b.orderIdMap orderId ≠ none) (.contract .cancelOrder)
  let addr ← orFail (b.orderIdMap orderId) .danglingIterator
  let node ← orFail (b.deref addr) .danglingIterator
  let price := node.order.price
  let sideMap := b.getSide node.order.side
  let ordersAtPrice ← orFail (sideMap.find? price) .outOfRange
  let remaining := ordersAtPrice.filter (fun n => n.addr ≠ addr)
  let sideMap' := if remaining = [] then sideMap.erase price else sideMap.insert price remaining
  return { b.setSide node.order.side sideMap' with orderIdMap := eraseId b.orderIdMap orderId }

/-! ### Level aggregates and fill costs -/

/-- The levels of a side from best to worst. -/
def levelsOf (s : Side) (m : SideContainer) : List (Int × List Node) :=
  match s with
  | .bid => m.entries.reverse
  | .ask => m.entries

end LimitOrderBook

namespace LimitOrderBook

variable (A : Arith)

def levelQuantity (orders : List Node) : Int := orders.foldl (fun acc n => A.int (acc + n.order.quantity)) 0

def getLevelAggregate (b : LimitOrderBook) (side : Side) (level : Nat) : Except Fault LevelAggregate := do
  let (price, orders) ← orFail ((levelsOf side (b.getSide side))[level]?) (.contract .getLevelAggregate)
  let aggregate : LevelAggregate := ⟨price, levelQuantity A orders⟩
  require (0 < aggregate.price ∧ 0 < aggregate.quantity) (.contract .getLevelAggregate)
  return aggregate

/-- A loop of `get_top_order_book_level_aggregate` from level `i` on, with at most `n` levels to go. -/
def topLevelsLoop (b : LimitOrderBook) (side : Side) :
    Nat → Nat → List LevelAggregate → Except Fault (List LevelAggregate)
  | 0, _, aggregates => .ok aggregates
  | n + 1, i, aggregates =>
    if i < (b.getSide side).size then do
      let aggregate ← b.getLevelAggregate A side i
      require (i < aggregates.length) .outOfRange
      topLevelsLoop b side n (i + 1) (aggregates.set i aggregate)
    else .ok aggregates

/-- `get_top_order_book_level_aggregate` at time `nowTsMs`. -/
def getTopOrderBookLevelAggregate (b : LimitOrderBook) (nowTsMs : Nat) :
    Except Fault TopOrderBookLevelAggregates := do
  let topAggregate ← TopOrderBookLevelAggregates.make b.ticker nowTsMs
  let bids ← b.topLevelsLoop A .bid orderBookAggregateLevels 0 topAggregate.bidLevelAggregates
  let asks ← b.topLevelsLoop A .ask orderBookAggregateLevels 0 topAggregate.askLevelAggregates
  return { topAggregate with bidLevelAggregates := bids, askLevelAggregates := asks }

/-- The loop of `get_fill_cost` from level `i` on, with `n` levels to go. -/
def fillCostLoop (b : LimitOrderBook) (side : Side) : Nat → Nat → Int → Int → Except Fault Int
  | 0, _, totalCost, _ => .ok totalCost
  | n + 1, i, totalCost, quantity =>
    if quantity = 0 then .ok totalCost
    else do
      let aggregate ← b.getLevelAggregate A side i
      if aggregate.quantity ≤ quantity then
        fillCostLoop b side n (i + 1) (A.int (totalCost + A.int (aggregate.price * aggregate.quantity)))
          (quantity - aggregate.quantity)
      else
        fillCostLoop b side n (i + 1) (A.int (totalCost + A.int (aggregate.price * quantity))) 0

def getFillCost (b : LimitOrderBook) (quantity : Int) (side : Side) : Except Fault (Option Int) := do
  require (0 < quantity) (.contract .getFillCost)
  if (b.getSide side).isEmpty then
    return none
  else
    let totalCost ← b.fillCostLoop A side (b.getSide side).size 0 0 quantity
    require (0 < totalCost) (.contract .getFillCost)
    return some totalCost

end LimitOrderBook

end Elsa
