import Elsa.Base.Wire

/-!
# The messages of `containers.proto`

The enumerations and messages of `containers.proto`, with the numbers of their fields, and the codec that they give
with the format of `Base.Wire`.  A field may be set or not.  Protocol buffers keep a number that an enumeration does
not know; it is read as the unspecified value here, which the services refuse in the same way.
-/

namespace Elsa.Transport

open Base Wire

inductive OrderType
  | orderTypeUnspecified
  | orderTypeLimit
  | orderTypeMarket
deriving DecidableEq, Repr

inductive Side
  | sideUnspecified
  | sideBid
  | sideAsk
deriving DecidableEq, Repr

inductive TimeInForce
  | tifUnspecified
  | tifDay
  | tifGtc
deriving DecidableEq, Repr

inductive ExecTransType
  | execTransTypeUnspecified
  | execTransNew
  | execTransCancel
  | execTransCorrect
  | execTransStatus
deriving DecidableEq, Repr

inductive ExecTypeOrOrderStatus
  | execTypeOrOrderStatusUnspecified
  | statusNew
  | statusPartiallyFilled
  | statusFilled
  | statusCanceled
  | statusPendingCancel
  | statusRejected
deriving DecidableEq, Repr

structure NewOrderSingleContainer where
  senderCompId : Option String
  targetCompId : Option String
  clOrdId : Option Int32
  symbol : Option String
  side : Option Side
  orderQty : Option Int32
  ordType : Option OrderType
  price : Option Int32
  timeInForce : Option TimeInForce
  orderId : Option Int32

structure CancelOrderRequestContainer where
  senderCompId : Option String
  targetCompId : Option String
  orderId : Option Int32
  origClOrdId : Option Int32
  clOrdId : Option Int32
  symbol : Option String
  side : Option Side
  orderQty : Option Int32

structure ExecutionReportContainer where
  senderCompId : Option String
  targetCompId : Option String
  orderId : Option Int32
  clOrderId : Option Int32
  origClOrdId : Option Int32
  execId : Option String
  execTransType : Option ExecTransType
  execType : Option ExecTypeOrOrderStatus
  ordStatus : Option ExecTypeOrOrderStatus
  text : Option String
  symbol : Option String
  side : Option Side
  price : Option Int32
  timeInForce : Option TimeInForce
  leavesQty : Option Int32
  cumQty : Option Int32
  avgPx : Option Int32

structure FillCostQueryContainer where
  symbol : Option String
  quantity : Option Int32
  side : Option Side

structure FillCostResponseContainer where
  totalCost : Option Int32

structure TradeContainer where
  ticker : Option String
  price : Option Int32
  quantity : Option Int32
  tradeId : Option String
  takerId : Option String
  makerId : Option String
  takerOrderId : Option Int32
  makerOrderId : Option Int32
  isTakerBuyer : Option Bool

structure CancelOrderResponseContainer where
  orderId : Option Int32
  clOrdId : Option Int32
  success : Option Bool

/-- At most one of the containers is set. -/
inductive ContainerWrapper
  | containerNotSet
  | newOrderSingle (p : NewOrderSingleContainer)
  | cancelOrderRequest (p : CancelOrderRequestContainer)
  | executionReport (p : ExecutionReportContainer)
  | fillCostQuery (p : FillCostQueryContainer)
  | fillCostResponse (p : FillCostResponseContainer)
  | trade (p : TradeContainer)
  | cancelOrderResponse (p : CancelOrderResponseContainer)

/-! ### On the wire -/

def OrderType.kind : Kind OrderType :=
  .enum .orderTypeUnspecified [.orderTypeUnspecified, .orderTypeLimit, .orderTypeMarket] fun x => by
    cases x <;> decide

def Side.kind : Kind Side :=
  .enum .sideUnspecified [.sideUnspecified, .sideBid, .sideAsk] fun x => by cases x <;> decide

def TimeInForce.kind : Kind TimeInForce :=
  .enum .tifUnspecified [.tifUnspecified, .tifDay, .tifGtc] fun x => by cases x <;> decide

def ExecTransType.kind : Kind ExecTransType :=
  .enum .execTransTypeUnspecified
    [.execTransTypeUnspecified, .execTransNew, .execTransCancel, .execTransCorrect, .execTransStatus]
    fun x => by cases x <;> decide

def ExecTypeOrOrderStatus.kind : Kind ExecTypeOrOrderStatus :=
  .enum .execTypeOrOrderStatusUnspecified
    [.execTypeOrOrderStatusUnspecified, .statusNew, .statusPartiallyFilled, .statusFilled, .statusCanceled,
      .statusPendingCancel, .statusRejected]
    fun x => by cases x <;> decide

def NewOrderSingleContainer.message : Message NewOrderSingleContainer where
  fields := (Fields.start NewOrderSingleContainer.mk)
    |>.field 1 .string NewOrderSingleContainer.senderCompId (by decide)
    |>.field 2 .string NewOrderSingleContainer.targetCompId (by decide)
    |>.field 3 .int32 NewOrderSingleContainer.clOrdId (by decide)
    |>.field 4 .string NewOrderSingleContainer.symbol (by decide)
    |>.field 5 Side.kind NewOrderSingleContainer.side (by decide)
    |>.field 6 .int32 NewOrderSingleContainer.orderQty (by decide)
    |>.field 7 OrderType.kind NewOrderSingleContainer.ordType (by decide)
    |>.field 8 .int32 NewOrderSingleContainer.price (by decide)
    |>.field 9 TimeInForce.kind NewOrderSingleContainer.timeInForce (by decide)
    |>.field 10 .int32 NewOrderSingleContainer.orderId (by decide)
  value_eq _ := rfl

def CancelOrderRequestContainer.message : Message CancelOrderRequestContainer where
  fields := (Fields.start CancelOrderRequestContainer.mk)
    |>.field 1 .string CancelOrderRequestContainer.senderCompId (by decide)
    |>.field 2 .string CancelOrderRequestContainer.targetCompId (by decide)
    |>.field 3 .int32 CancelOrderRequestContainer.orderId (by decide)
    |>.field 4 .int32 CancelOrderRequestContainer.origClOrdId (by decide)
    |>.field 5 .int32 CancelOrderRequestContainer.clOrdId (by decide)
    |>.field 6 .string CancelOrderRequestContainer.symbol (by decide)
    |>.field 7 Side.kind CancelOrderRequestContainer.side (by decide)
    |>.field 8 .int32 CancelOrderRequestContainer.orderQty (by decide)
  value_eq _ := rfl

def ExecutionReportContainer.message : Message ExecutionReportContainer where
  fields := (Fields.start ExecutionReportContainer.mk)
    |>.field 1 .string ExecutionReportContainer.senderCompId (by decide)
    |>.field 2 .string ExecutionReportContainer.targetCompId (by decide)
    |>.field 3 .int32 ExecutionReportContainer.orderId (by decide)
    |>.field 4 .int32 ExecutionReportContainer.clOrderId (by decide)
    |>.field 5 .int32 ExecutionReportContainer.origClOrdId (by decide)
    |>.field 6 .string ExecutionReportContainer.execId (by decide)
    |>.field 7 ExecTransType.kind ExecutionReportContainer.execTransType (by decide)
    |>.field 8 ExecTypeOrOrderStatus.kind ExecutionReportContainer.execType (by decide)
    |>.field 9 ExecTypeOrOrderStatus.kind ExecutionReportContainer.ordStatus (by decide)
    |>.field 10 .string ExecutionReportContainer.text (by decide)
    |>.field 11 .string ExecutionReportContainer.symbol (by decide)
    |>.field 12 Side.kind ExecutionReportContainer.side (by decide)
    |>.field 13 .int32 ExecutionReportContainer.price (by decide)
    |>.field 14 TimeInForce.kind ExecutionReportContainer.timeInForce (by decide)
    |>.field 15 .int32 ExecutionReportContainer.leavesQty (by decide)
    |>.field 16 .int32 ExecutionReportContainer.cumQty (by decide)
    |>.field 17 .int32 ExecutionReportContainer.avgPx (by decide)
  value_eq _ := rfl

def FillCostQueryContainer.message : Message FillCostQueryContainer where
  fields := (Fields.start FillCostQueryContainer.mk)
    |>.field 1 .string FillCostQueryContainer.symbol (by decide)
    |>.field 2 .int32 FillCostQueryContainer.quantity (by decide)
    |>.field 3 Side.kind FillCostQueryContainer.side (by decide)
  value_eq _ := rfl

def FillCostResponseContainer.message : Message FillCostResponseContainer where
  fields := (Fields.start FillCostResponseContainer.mk)
    |>.field 1 .int32 FillCostResponseContainer.totalCost (by decide)
  value_eq _ := rfl

def TradeContainer.message : Message TradeContainer where
  fields := (Fields.start TradeContainer.mk)
    |>.field 1 .string TradeContainer.ticker (by decide)
    |>.field 2 .int32 TradeContainer.price (by decide)
    |>.field 3 .int32 TradeContainer.quantity (by decide)
    |>.field 4 .string TradeContainer.tradeId (by decide)
    |>.field 5 .string TradeContainer.takerId (by decide)
    |>.field 6 .string TradeContainer.makerId (by decide)
    |>.field 7 .int32 TradeContainer.takerOrderId (by decide)
    |>.field 8 .int32 TradeContainer.makerOrderId (by decide)
    |>.field 9 .bool TradeContainer.isTakerBuyer (by decide)
  value_eq _ := rfl

def CancelOrderResponseContainer.message : Message CancelOrderResponseContainer where
  fields := (Fields.start CancelOrderResponseContainer.mk)
    |>.field 1 .int32 CancelOrderResponseContainer.orderId (by decide)
    |>.field 2 .int32 CancelOrderResponseContainer.clOrdId (by decide)
    |>.field 3 .bool CancelOrderResponseContainer.success (by decide)
  value_eq _ := rfl

namespace ContainerWrapper

/-- The record of the container that is set. -/
def records : ContainerWrapper → List Record
  | containerNotSet => []
  | newOrderSingle p => [⟨1, .bytes (NewOrderSingleContainer.message.encode p)⟩]
  | cancelOrderRequest p => [⟨2, .bytes (CancelOrderRequestContainer.message.encode p)⟩]
  | executionReport p => [⟨3, .bytes (ExecutionReportContainer.message.encode p)⟩]
  | fillCostQuery p => [⟨4, .bytes (FillCostQueryContainer.message.encode p)⟩]
  | fillCostResponse p => [⟨5, .bytes (FillCostResponseContainer.message.encode p)⟩]
  | trade p => [⟨6, .bytes (TradeContainer.message.encode p)⟩]
  | cancelOrderResponse p => [⟨7, .bytes (CancelOrderResponseContainer.message.encode p)⟩]

/-- The container of a record; other records are skipped. -/
def parseRecord (r : Record) : Option ContainerWrapper :=
  match r.number, r.payload with
  | 1, .bytes bs => (NewOrderSingleContainer.message.decode bs).map newOrderSingle
  | 2, .bytes bs => (CancelOrderRequestContainer.message.decode bs).map cancelOrderRequest
  | 3, .bytes bs => (ExecutionReportContainer.message.decode bs).map executionReport
  | 4, .bytes bs => (FillCostQueryContainer.message.decode bs).map fillCostQuery
  | 5, .bytes bs => (FillCostResponseContainer.message.decode bs).map fillCostResponse
  | 6, .bytes bs => (TradeContainer.message.decode bs).map trade
  | 7, .bytes bs => (CancelOrderResponseContainer.message.decode bs).map cancelOrderResponse
  | _, _ => some containerNotSet

/-- The last container on the wire is the one that is set. -/
def parse (rs : List Record) : Option ContainerWrapper :=
  match (rs.filter fun r => 1 ≤ r.number ∧ r.number ≤ 7).getLast? with
  | none => some containerNotSet
  | some r => parseRecord r

private theorem parse_records (w : ContainerWrapper) : parse w.records = some w := by
  cases w with
  | containerNotSet => rfl
  | _ p => simp [records, parse, parseRecord, Message.decode_encode]

/-- `SerializeAsString` and `ParseFromString` of the wrapper. -/
def codec : Codec ContainerWrapper where
  serializeAsString w := encodeRecords w.records
  parseFromString data := (decodeRecords data.length data).bind parse
  parse_serialize w := by rw [decodeRecords_encodeRecords (Nat.le_refl _), Option.bind_some, parse_records]

end ContainerWrapper

end Elsa.Transport
