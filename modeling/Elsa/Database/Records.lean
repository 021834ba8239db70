import Elsa.Base.Steps
import Elsa.Core.Containers

/-!
# The rows of the time series database

What `AsyncWriter::append` makes of a write task, and what `DatabaseClient::query_trades` and `query_orders` make of
the rows that the database returns.  A row has the name of its table, symbols and columns by name; a query looks its
columns up by name and takes a default for a column that the row does not have.  The time stamp that the library puts
on a row is left out.

The database is not part of the repository.  It keeps the rows by their time stamps, takes one of those with the same
time stamp and id, and shows them some time after they were sent; so a query is a function of the rows that it is
given.  A row of a trade is read back as the trade (`readTrade_row`).
-/

namespace Elsa

open Base

/-! ### Names of enumerations -/

/-- `to_string(Side)`. -/
def Side.name : Side → String
  | .bid => "BID"
  | .ask => "ASK"

/-- `to_string(OrderType)`. -/
def OrderType.name : OrderType → String
  | .limit => "LIMIT"
  | .market => "MARKET"

/-- `to_string(TimeInForce)`. -/
def TimeInForce.name : TimeInForce → String
  | .day => "DAY"
  | .gtc => "GTC"

/-- `to_string(ExecTypeOrOrderStatus)`. -/
def ExecTypeOrOrderStatus.name : ExecTypeOrOrderStatus → String
  | .statusNew => "NEW"
  | .statusPartiallyFilled => "PARTIALLY_FILLED"
  | .statusFilled => "FILLED"
  | .statusCanceled => "CANCELED"
  | .statusPendingCancel => "PENDING_CANCEL"
  | .statusRejected => "REJECTED"

/-! ### Rows -/

inductive Cell
  | int (n : Int)
  | text (s : String)
  | bool (b : Bool)
deriving DecidableEq, Repr

structure Row where
  table : String
  symbols : List (String × String)
  columns : List (String × Cell)
deriving DecidableEq, Repr

inductive WriteTask
  | orderInsertion (internalOrderId : Int) (newOrderRequest : NewOrderSingle) (isOrderValid : Bool)
  | cancelRequestInsertion (cancelOrderRequest : CancelOrderRequest) (isRequestValid : Bool)
  | executionInsertion (executionReport : ExecutionReport)
  | tradeInsertion (trade : TradeContainer)
  | cancelResponseInsertion (cancelOrderResponse : CancelOrderResponse)
deriving DecidableEq, Repr

def ordersTable (serverName : String) : String := "orders_" ++ serverName

def tradesTable (serverName : String) : String := "trades_" ++ serverName

/-- The row that `append` writes.  The row of a response to a cancellation goes to a table that belongs to no
server. -/
def WriteTask.row (A : Arith) (serverName : String) : WriteTask → Row
  | .orderInsertion internalOrderId o isOrderValid =>
    ⟨ordersTable serverName,
      [("symbol", o.symbol), ("side", o.side.name), ("ord_type", o.ordType.name),
      ("time_in_force", o.timeInForce.name), ("order_status", if isOrderValid then "NEW" else "REJECTED")],
      [("sender_comp_id", .text o.senderCompId), ("order_id", .int internalOrderId), ("cl_order_id", .int o.clOrdId),
        ("order_qty", .int o.orderQty), ("filled_qty", .int 0), ("price", .int (o.price.getD 0))]⟩
  | .cancelRequestInsertion c isRequestValid =>
    ⟨ordersTable serverName,
      [("symbol", c.symbol), ("side", c.side.name),
      ("order_status", if isRequestValid then "PENDING_CANCEL" else "REJECTED_CANCEL")],
      [("sender_comp_id", .text c.senderCompId), ("order_id", .int (c.orderId.getD (-1))),
      ("cl_order_id", .int c.origClOrdId), ("order_qty", .int c.orderQty), ("filled_qty", .int 0)]⟩
  | .executionInsertion r =>
    ⟨ordersTable serverName,
      [("symbol", r.symbol), ("side", r.side.name), ("order_status", r.ordStatus.name),
      ("time_in_force", r.timeInForce.name)],
      [("sender_comp_id", .text r.senderCompId), ("order_id", .int r.orderId), ("cl_order_id", .int r.clOrderId),
      ("order_qty", .int (A.int (r.leavesQty + r.cumQty))), ("filled_qty", .int r.cumQty),
      ("price", .int (r.price.getD 0))]⟩
  | .tradeInsertion t =>
    ⟨tradesTable serverName, [("symbol", t.ticker)],
      [("price", .int t.price), ("quantity", .int t.quantity), ("trade_id", .text t.tradeId),
      ("taker_id", .text t.takerId), ("maker_id", .text t.makerId), ("taker_order_id", .int t.takerOrderId),
      ("maker_order_id", .int t.makerOrderId), ("is_taker_buyer", .bool t.isTakerBuyer)]⟩
  | .cancelResponseInsertion r =>
    ⟨"orders", [("order_status", if r.success then "CANCELLED" else "REJECTED_CANCEL")],
      [("order_id", .int r.orderId)]⟩

/-! ### Queries -/

/-- The cell that a query finds under a name. -/
def Row.cell (r : Row) (name : String) : Option Cell := (r.columns.lookup name).or ((r.symbols.lookup name).map .text)

/-- `as<int>(default)`: a number that does not fit is a failed conversion. -/
def asInt (default : Int) : Option Cell → Option Int
  | none => some default
  | some (.int n) => if IsInt32 n then some n else none
  | some _ => none

/-- `as<std::string>("")`. -/
def asText : Option Cell → Option String
  | none => some ""
  | some (.text s) => some s
  | some _ => none

/-- `as<bool>(false)`. -/
def asBool : Option Cell → Option Bool
  | none => some false
  | some (.bool b) => some b
  | some _ => none

structure TradeRow where
  price : Int
  quantity : Int
  symbol : String
  tradeId : String
  takerId : String
  makerId : String
  takerOrderId : Int
  makerOrderId : Int
  isTakerBuyer : Bool
deriving DecidableEq, Repr

structure OrderRow where
  orderId : Int
  clOrderId : Int
  senderCompId : String
  symbol : String
  side : String
  orderQty : Int
  filledQty : Int
  ordType : String
  price : Int
  timeInForce : String
  orderStatus : String
deriving DecidableEq, Repr

def Row.readTrade (r : Row) : Option TradeRow := do
  let price ← asInt 0 (r.cell "price")
  let quantity ← asInt 0 (r.cell "quantity")
  let symbol ← asText (r.cell "symbol")
  let tradeId ← asText (r.cell "trade_id")
  let takerId ← asText (r.cell "taker_id")
  let makerId ← asText (r.cell "maker_id")
  let takerOrderId ← asInt 0 (r.cell "taker_order_id")
  let makerOrderId ← asInt 0 (r.cell "maker_order_id")
  let isTakerBuyer ← asBool (r.cell "is_taker_buyer")
  return ⟨price, quantity, symbol, tradeId, takerId, makerId, takerOrderId, makerOrderId, isTakerBuyer⟩

def Row.readOrder (r : Row) : Option OrderRow := do
  let orderId ← asInt 0 (r.cell "order_id")
  let clOrderId ← asInt 0 (r.cell "cl_order_id")
  let senderCompId ← asText (r.cell "sender_comp_id")
  let symbol ← asText (r.cell "symbol")
  let side ← asText (r.cell "side")
  let orderQty ← asInt 0 (r.cell "order_qty")
  let filledQty ← asInt 0 (r.cell "filled_qty")
  let ordType ← asText (r.cell "ord_type")
  let price ← asInt 0 (r.cell "price")
  let timeInForce ← asText (r.cell "time_in_force")
  let orderStatus ← asText (r.cell "order_status")
  return ⟨orderId, clOrderId, senderCompId, symbol, side, orderQty, filledQty, ordType, price, timeInForce,
    orderStatus⟩

/-- `query_trades(server_name)`, where the database has the given rows to return. -/
def queryTrades (serverName : String) (rows : List Row) : Option (List TradeRow) :=
  (rows.filter fun r => r.table = tradesTable serverName).mapM Row.readTrade

/-- `query_orders(server_name)`, where the database has the given rows to return. -/
def queryOrders (serverName : String) (rows : List Row) : Option (List OrderRow) :=
  (rows.filter fun r => r.table = ordersTable serverName).mapM Row.readOrder

/-! ### What is read back -/

/-- The row of a trade, as a query returns it. -/
def TradeContainer.tradeRow (t : TradeContainer) : TradeRow :=
  ⟨t.price, t.quantity, t.ticker, t.tradeId, t.takerId, t.makerId, t.takerOrderId, t.makerOrderId, t.isTakerBuyer⟩

/-- The numbers of a trade are values of `int`. -/
def TradeContainer.InRange (t : TradeContainer) : Prop :=
  IsInt32 t.price ∧ IsInt32 t.quantity ∧ IsInt32 t.takerOrderId ∧ IsInt32 t.makerOrderId

/-- The trade of a task. -/
def WriteTask.trade? : WriteTask → Option TradeContainer
  | .tradeInsertion t => some t
  | _ => none

variable {A : Arith} {serverName : String}

private theorem asInt_int {n : Int} (h : IsInt32 n) (default : Int) :
    asInt default (some (.int n)) = some n := if_pos h

theorem readTrade_row {t : TradeContainer} (h : t.InRange) :
    ((WriteTask.tradeInsertion t).row A serverName).readTrade = some t.tradeRow := by
  obtain ⟨hprice, hquantity, htaker, hmaker⟩ := h
  -- each name is looked up in a row whose names are known
  have hcells : ((WriteTask.tradeInsertion t).row A serverName).readTrade = (do
      let price ← asInt 0 (some (.int t.price))
      let quantity ← asInt 0 (some (.int t.quantity))
      let takerOrderId ← asInt 0 (some (.int t.takerOrderId))
      let makerOrderId ← asInt 0 (some (.int t.makerOrderId))
      return ⟨price, quantity, t.ticker, t.tradeId, t.takerId, t.makerId, takerOrderId, makerOrderId,
        t.isTakerBuyer⟩) := rfl
  rw [hcells, asInt_int hprice, asInt_int hquantity, asInt_int htaker, asInt_int hmaker]
  rfl

/-- The filled quantity and the status are read from their columns. -/
theorem Row.readOrder_fields {r : Row} {o : OrderRow} (h : r.readOrder = some o) :
    asInt 0 (r.cell "filled_qty") = some o.filledQty ∧ asText (r.cell "order_status") = some o.orderStatus := by
  simp only [readOrder, Option.bind_eq_bind, Option.bind_eq_some_iff] at h
  obtain ⟨id, -, cl, -, sender, -, symbol, -, side, -, quantity, -, filled, hfilled, type, -, price, -, tif, -,
    status, hstatus, h⟩ := h
  cases h
  exact ⟨hfilled, hstatus⟩

/-- The names of the tables differ in their first letter. -/
theorem ordersTable_ne_tradesTable (serverName serverName' : String) :
    ordersTable serverName ≠ tradesTable serverName' := by
  intro h
  have hlist := congrArg String.toList h
  simp [ordersTable, tradesTable, String.toList_append] at hlist

private theorem orders_ne_tradesTable (serverName : String) : "orders" ≠ tradesTable serverName := by
  intro h
  have hlist := congrArg String.toList h
  simp [tradesTable, String.toList_append] at hlist

theorem orders_ne_ordersTable (serverName : String) : "orders" ≠ ordersTable serverName := by
  intro h
  have hlist := congrArg String.toList h
  simp [ordersTable, String.toList_append] at hlist

/-- Only trades are written to the table of the trades. -/
theorem row_table_eq_tradesTable {task : WriteTask} :
    (task.row A serverName).table = tradesTable serverName ↔ task.trade? ≠ none := by
  cases task with
  | tradeInsertion t => simp [WriteTask.row, WriteTask.trade?]
  | cancelResponseInsertion r => simp [WriteTask.row, WriteTask.trade?, orders_ne_tradesTable]
  | orderInsertion id o valid => simp [WriteTask.row, WriteTask.trade?, ordersTable_ne_tradesTable]
  | cancelRequestInsertion c valid => simp [WriteTask.row, WriteTask.trade?, ordersTable_ne_tradesTable]
  | executionInsertion r => simp [WriteTask.row, WriteTask.trade?, ordersTable_ne_tradesTable]

end Elsa
