import Elsa.Core.Containers
import Elsa.Transport.Proto

/-!
# Containers as messages

`serialize_container` and `deserialize_container`, over any codec for the wrapper message that reads back what it
writes.  All fields come back except one: the text of an execution report is read without a look at whether it was
set, so that a report without a text comes back with an empty one (`readBack`).
-/

namespace Elsa.Transport

open Base

/-! ### Enumerations -/

def convertSideToProto : Elsa.Side → Side
  | .bid => .sideBid
  | .ask => .sideAsk

def convertOrderTypeToProto : Elsa.OrderType → OrderType
  | .limit => .orderTypeLimit
  | .market => .orderTypeMarket

def convertTimeInForceToProto : Elsa.TimeInForce → TimeInForce
  | .day => .tifDay
  | .gtc => .tifGtc

def convertExecTransTypeToProto : Elsa.ExecTransType → ExecTransType
  | .execTransNew => .execTransNew
  | .execTransCancel => .execTransCancel
  | .execTransCorrect => .execTransCorrect
  | .execTransStatus => .execTransStatus

def convertStatusToProto : Elsa.ExecTypeOrOrderStatus → ExecTypeOrOrderStatus
  | .statusNew => .statusNew
  | .statusPartiallyFilled => .statusPartiallyFilled
  | .statusFilled => .statusFilled
  | .statusCanceled => .statusCanceled
  | .statusPendingCancel => .statusPendingCancel
  | .statusRejected => .statusRejected

def convertSideToInternal : Side → Except String Elsa.Side
  | .sideBid => .ok .bid
  | .sideAsk => .ok .ask
  | .sideUnspecified => .error "Unknown Side enum value"

def convertOrderTypeToInternal : OrderType → Except String Elsa.OrderType
  | .orderTypeLimit => .ok .limit
  | .orderTypeMarket => .ok .market
  | .orderTypeUnspecified => .error "Unknown OrderType enum value"

def convertTimeInForceToInternal : TimeInForce → Except String Elsa.TimeInForce
  | .tifDay => .ok .day
  | .tifGtc => .ok .gtc
  | .tifUnspecified => .error "Unknown TimeInForce enum value"

def convertExecTransTypeToInternal : ExecTransType → Except String Elsa.ExecTransType
  | .execTransNew => .ok .execTransNew
  | .execTransCancel => .ok .execTransCancel
  | .execTransCorrect => .ok .execTransCorrect
  | .execTransStatus => .ok .execTransStatus
  | .execTransTypeUnspecified => .error "Unknown ExecTransType enum value"

def convertStatusToInternal : ExecTypeOrOrderStatus → Except String Elsa.ExecTypeOrOrderStatus
  | .statusNew => .ok .statusNew
  | .statusPartiallyFilled => .ok .statusPartiallyFilled
  | .statusFilled => .ok .statusFilled
  | .statusCanceled => .ok .statusCanceled
  | .statusPendingCancel => .ok .statusPendingCancel
  | .statusRejected => .ok .statusRejected
  | .execTypeOrOrderStatusUnspecified => .error "Unknown ExecTypeOrOrderStatus enum value"

/-! ### Writing -/

/-- The messages that `serialize_container` fills in, one for each of its overloads. -/
def containerProto : Container → ContainerWrapper
  | .trade c => .trade
    { ticker := some c.ticker, price := some (.ofInt c.price), quantity := some (.ofInt c.quantity)
      tradeId := some c.tradeId
      takerId := some c.takerId, makerId := some c.makerId, takerOrderId := some (.ofInt c.takerOrderId)
      makerOrderId := some (.ofInt c.makerOrderId), isTakerBuyer := some c.isTakerBuyer }
  | .cancelOrderResponse c => .cancelOrderResponse
    { orderId := some (.ofInt c.orderId), clOrdId := some (.ofInt c.clOrdId), success := some c.success }
  | .fillCostQuery c => .fillCostQuery
    { quantity := some (.ofInt c.quantity), side := some (convertSideToProto c.side), symbol := some c.symbol }
  | .fillCostResponse c => .fillCostResponse { totalCost := c.totalCost.map .ofInt }
  | .newOrderSingle c => .newOrderSingle
    { clOrdId := some (.ofInt c.clOrdId), senderCompId := some c.senderCompId, targetCompId := some c.targetCompId
      orderId := c.orderId.map .ofInt, symbol := some c.symbol, side := some (convertSideToProto c.side)
      orderQty := some (.ofInt c.orderQty), ordType := some (convertOrderTypeToProto c.ordType), price :=
        c.price.map .ofInt
      timeInForce := some (convertTimeInForceToProto c.timeInForce) }
  | .cancelOrderRequest c => .cancelOrderRequest
    { clOrdId := some (.ofInt c.clOrdId), senderCompId := some c.senderCompId, targetCompId := some c.targetCompId
      orderId := c.orderId.map .ofInt, origClOrdId := some (.ofInt c.origClOrdId), symbol := some c.symbol
      side := some (convertSideToProto c.side), orderQty := some (.ofInt c.orderQty) }
  | .executionReport c => .executionReport
    { senderCompId := some c.senderCompId, targetCompId := some c.targetCompId, orderId := some (.ofInt c.orderId)
      clOrderId := some (.ofInt c.clOrderId), origClOrdId := c.origClOrdId.map .ofInt, execId := some c.execId
      execTransType := some (convertExecTransTypeToProto c.execTransType)
      execType := some (convertStatusToProto c.execType), ordStatus := some (convertStatusToProto c.ordStatus)
      text := c.text, symbol := some c.symbol, side := some (convertSideToProto c.side), price := c.price.map .ofInt
      timeInForce := some (convertTimeInForceToProto c.timeInForce), leavesQty := some (.ofInt c.leavesQty)
      cumQty := some (.ofInt c.cumQty), avgPx := some (.ofInt c.avgPx) }

def serializeContainer (P : Codec ContainerWrapper) (c : Container) : List UInt8 :=
  P.serializeAsString (containerProto c)

/-! ### Reading -/

/-- The value of a field; one that is not set has the default of its type. -/
def int (x : Option Int32) : Int := (x.getD 0).toInt

def string (x : Option String) : String := x.getD ""

def bool (x : Option Bool) : Bool := x.getD false

def side (x : Option Side) : Side := x.getD .sideUnspecified

def ordType (x : Option OrderType) : OrderType := x.getD .orderTypeUnspecified

def timeInForce (x : Option TimeInForce) : TimeInForce := x.getD .tifUnspecified

def execTransType (x : Option ExecTransType) : ExecTransType := x.getD .execTransTypeUnspecified

def status (x : Option ExecTypeOrOrderStatus) : ExecTypeOrOrderStatus := x.getD .execTypeOrOrderStatusUnspecified

/-- The cases of `deserialize_container`. -/
def containerInternal : ContainerWrapper → Except String Container
  | .newOrderSingle p => do
    let orderSide ← convertSideToInternal (side p.side)
    let type ← convertOrderTypeToInternal (ordType p.ordType)
    let tif ← convertTimeInForceToInternal (timeInForce p.timeInForce)
    return .newOrderSingle
      { orderId := p.orderId.map Int32.toInt, clOrdId := int p.clOrdId, senderCompId := string p.senderCompId
        targetCompId := string p.targetCompId, symbol := string p.symbol, side := orderSide, orderQty :=
        int p.orderQty
        ordType := type, price := p.price.map Int32.toInt, timeInForce := tif }
  | .cancelOrderRequest p => do
    let orderSide ← convertSideToInternal (side p.side)
    return .cancelOrderRequest
      { clOrdId := int p.clOrdId, senderCompId := string p.senderCompId, targetCompId := string p.targetCompId
        orderId := p.orderId.map Int32.toInt, origClOrdId := int p.origClOrdId, symbol := string p.symbol
        side := orderSide, orderQty := int p.orderQty }
  | .executionReport p => do
    let transType ← convertExecTransTypeToInternal (execTransType p.execTransType)
    let type ← convertStatusToInternal (status p.execType)
    let ordStatus ← convertStatusToInternal (status p.ordStatus)
    let orderSide ← convertSideToInternal (side p.side)
    let tif ← convertTimeInForceToInternal (timeInForce p.timeInForce)
    return .executionReport
      { senderCompId := string p.senderCompId, targetCompId := string p.targetCompId, orderId := int p.orderId
        clOrderId := int p.clOrderId, origClOrdId := p.origClOrdId.map Int32.toInt, execId := string p.execId
        execTransType := transType, execType := type, ordStatus
        -- no look at has_text() here
        text := some (string p.text)
        symbol := string p.symbol, side := orderSide, price := p.price.map Int32.toInt, timeInForce := tif
        leavesQty := int p.leavesQty, cumQty := int p.cumQty, avgPx := int p.avgPx }
  | .fillCostQuery p => do
    let orderSide ← convertSideToInternal (side p.side)
    return .fillCostQuery { symbol := string p.symbol, side := orderSide, quantity := int p.quantity }
  | .fillCostResponse p => .ok (.fillCostResponse { totalCost := p.totalCost.map Int32.toInt })
  | .trade p => .ok (.trade
      { ticker := string p.ticker, price := int p.price, quantity := int p.quantity, tradeId := string p.tradeId
        takerId := string p.takerId, makerId := string p.makerId, takerOrderId := int p.takerOrderId
        makerOrderId := int p.makerOrderId, isTakerBuyer := bool p.isTakerBuyer })
  | .cancelOrderResponse p => .ok (.cancelOrderResponse
      { orderId := int p.orderId, clOrdId := int p.clOrdId, success := bool p.success })
  | .containerNotSet => .error "Unknown ContainerWrapper case"

def deserializeContainer (P : Codec ContainerWrapper) (data : List UInt8) : Except String Container :=
  match P.parseFromString data with
  | none => .error "Failed to parse ContainerWrapper from string"
  | some wrapper => containerInternal wrapper

/-! ### Round trips -/

private theorem convertSide_roundTrip (s : Elsa.Side) :
    convertSideToInternal (side (some (convertSideToProto s))) = .ok s := by
  cases s <;> rfl

private theorem convertOrderType_roundTrip (t : Elsa.OrderType) :
    convertOrderTypeToInternal (ordType (some (convertOrderTypeToProto t))) = .ok t := by
  cases t <;> rfl

private theorem convertTimeInForce_roundTrip (t : Elsa.TimeInForce) :
    convertTimeInForceToInternal (timeInForce (some (convertTimeInForceToProto t))) = .ok t := by
  cases t <;> rfl

private theorem convertExecTransType_roundTrip (t : Elsa.ExecTransType) :
    convertExecTransTypeToInternal (execTransType (some (convertExecTransTypeToProto t))) = .ok t := by
  cases t <;> rfl

private theorem convertStatus_roundTrip (t : Elsa.ExecTypeOrOrderStatus) :
    convertStatusToInternal (status (some (convertStatusToProto t))) = .ok t := by
  cases t <;> rfl

private theorem toInt_ofInt {x : Int} (h : IsInt32 x) : (Int32.ofInt x).toInt = x := by
  unfold IsInt32 at h
  exact Int32.toInt_ofInt_of_le (by omega) (by omega)

private theorem int_some_ofInt {x : Int} (h : IsInt32 x) : int (some (Int32.ofInt x)) = x := toInt_ofInt h

private theorem map_toInt_map_ofInt {x : Option Int} (h : ∀ n ∈ x, IsInt32 n) :
    (x.map Int32.ofInt).map Int32.toInt = x := by
  cases x with
  | none => rfl
  | some n => exact congrArg some (toInt_ofInt (h n rfl))

private theorem string_some (x : String) : string (some x) = x := rfl

private theorem bool_some (x : Bool) : bool (some x) = x := rfl

/-- What comes back for a container. -/
def readBack : Container → Container
  | .executionReport r => .executionReport { r with text := some (r.text.getD "") }
  | c => c

private theorem containerInternal_containerProto {c : Container} (hc : c.Fits) :
    containerInternal (containerProto c) = .ok (readBack c) := by
  cases c with
  | newOrderSingle o =>
    obtain ⟨h1, h2, h3, h4⟩ := hc
    simp only [containerProto, containerInternal, convertSide_roundTrip, convertOrderType_roundTrip,
      convertTimeInForce_roundTrip, map_toInt_map_ofInt h1, map_toInt_map_ofInt h4, int_some_ofInt h2,
      int_some_ofInt h3, string_some]
    rfl
  | cancelOrderRequest c =>
    obtain ⟨h1, h2, h3, h4⟩ := hc
    simp only [containerProto, containerInternal, convertSide_roundTrip, map_toInt_map_ofInt h1, int_some_ofInt h2,
      int_some_ofInt h3, int_some_ofInt h4, string_some]
    rfl
  | executionReport r =>
    obtain ⟨h1, h2, h3, h4, h5, h6, h7⟩ := hc
    simp only [containerProto, containerInternal, convertSide_roundTrip, convertTimeInForce_roundTrip,
      convertExecTransType_roundTrip, convertStatus_roundTrip, map_toInt_map_ofInt h3, map_toInt_map_ofInt h4,
      int_some_ofInt h1, int_some_ofInt h2, int_some_ofInt h5, int_some_ofInt h6, int_some_ofInt h7, string_some]
    rfl
  | fillCostQuery q =>
    simp only [containerProto, containerInternal, convertSide_roundTrip, int_some_ofInt hc, string_some]
    rfl
  | fillCostResponse r => simp only [containerProto, containerInternal, map_toInt_map_ofInt hc, readBack]
  | trade t =>
    obtain ⟨h1, h2, h3, h4⟩ := hc
    simp only [containerProto, containerInternal, int_some_ofInt h1, int_some_ofInt h2, int_some_ofInt h3,
      int_some_ofInt h4, string_some, bool_some, readBack]
  | cancelOrderResponse r =>
    obtain ⟨h1, h2⟩ := hc
    simp only [containerProto, containerInternal, int_some_ofInt h1, int_some_ofInt h2, bool_some, readBack]

theorem readBack_eq_iff (c : Container) : readBack c = c ↔ ∀ r, c = .executionReport r → r.text.isSome = true := by
  cases c with
  | executionReport r =>
    obtain ⟨_, _, _, _, _, _, _, _, _, text, _⟩ := r
    cases text with
    | none => simp [readBack]
    | some text => simp [readBack]
  | _ => simp [readBack]

variable (P : Codec ContainerWrapper)

theorem deserializeContainer_serializeContainer {c : Container} (hc : c.Fits) :
    deserializeContainer P (serializeContainer P c) = .ok (readBack c) := by
  unfold deserializeContainer serializeContainer
  rw [P.parse_serialize]
  exact containerInternal_containerProto hc

/-- A container comes back as it was exactly when it is not an execution report without a text. -/
theorem roundTrip_iff {c : Container} (hc : c.Fits) :
    deserializeContainer P (serializeContainer P c) = .ok c ↔ ∀ r, c = .executionReport r → r.text.isSome = true := by
  rw [deserializeContainer_serializeContainer P hc, Except.ok.injEq, readBack_eq_iff]

/-- The report about a complete fill, as the order manager makes it: without a text. -/
def fillReport : ExecutionReport :=
  ⟨"GME_SERVER", "ann", 1, 1, none, "", .execTransNew, .statusFilled, .statusFilled, none, "GME", .bid, some 100,
    .day, 0, 4, 100⟩

theorem roundTrip_fillReport_with_text :
    Container.Fits (.executionReport { fillReport with text := some "done" }) ∧
    deserializeContainer ContainerWrapper.codec
      (serializeContainer ContainerWrapper.codec (.executionReport { fillReport with text := some "done" })) =
        .ok (.executionReport { fillReport with text := some "done" }) := by
  refine ⟨by decide, (roundTrip_iff ContainerWrapper.codec (by decide)).2 fun r hr => ?_⟩
  cases hr
  rfl

/-- The report comes back with an empty text. -/
theorem fillReport_gains_text :
    deserializeContainer ContainerWrapper.codec (serializeContainer ContainerWrapper.codec
      (.executionReport fillReport)) = .ok (.executionReport { fillReport with text := some "" }) ∧
      deserializeContainer ContainerWrapper.codec
      (serializeContainer ContainerWrapper.codec (.executionReport fillReport)) ≠ .ok
        (.executionReport fillReport) := by
  have hback := deserializeContainer_serializeContainer ContainerWrapper.codec
    (show Container.Fits (.executionReport fillReport) by decide)
  refine ⟨hback, fun h => ?_⟩
  rw [hback, Except.ok.injEq] at h
  revert h
  decide

end Elsa.Transport
