import Elsa.Base.Bimap
import Elsa.Base.CString
import Elsa.Manager.BalanceChecker

/-!
# The order manager

`OrderManager::run` takes a request from a gateway through `preprocess_container`, `validate_container`,
`forward_and_reply` and `update_database`, and a response from the matching engine through `update_internal_data`,
`return_execution_report` and `update_database`.  For a market bid `preprocess_container` sends a query for the fill
cost and waits for the answer, so that a request has two halves: `handleRequest` up to the query, `completeRequest`
after it.

Sends that fail are only logged, except for the query, whose result is an argument.  Execution ids are drawn from
outside.
-/

namespace Elsa

open Base

def usdSymbol : String := "USD"

theorem usdSymbol_ne : usdSymbol ≠ "" := by decide

structure OrderInfo where
  senderCompId : String
  symbol : String
  side : Side
  price : Option Int
  timeInForce : TimeInForce
  leavesQty : Int
  cumQty : Int
  avgPx : Int
  arrivalGatewayId : Int
deriving DecidableEq, Repr

/-- `OrderInfo{}`. -/
def OrderInfo.default : OrderInfo := ⟨"", "", .bid, none, .day, 0, 0, 0, 0⟩

/-- What does not change while the order manager runs.  The users come from a table of the database, and no text there
holds a zero byte; neither does a symbol. -/
structure Config where
  serverName : String
  serverId : Int
  activeSymbols : List String
  usernameUserIdMap : String → Option Int
  symbols_nulFree : ∀ symbol ∈ activeSymbols, CString.NulFree symbol
  users_nulFree : ∀ u, usernameUserIdMap u ≠ none → CString.NulFree u

structure OrderManager where
  orderIdMap : Bimap Int Int
  orderInfoMap : Int → Option OrderInfo
  balanceChecker : BalanceChecker
  latestAssignedOrderId : Int

def OrderManager.init (balances : BalanceChecker) : OrderManager := ⟨.empty, fun _ => none, balances, -1⟩

/-- The calls of the database client. -/
inductive DatabaseCall
  | insertOrder (orderId : Int) (newOrder : NewOrderSingle) (valid : Bool)
  | insertCancelRequest (cancelRequest : CancelOrderRequest) (valid : Bool)
  | insertTrade (trade : TradeContainer)
  | updateBalance (userId serverId : Int) (symbol : String) (balance : Int)
  | insertCancelResponse (cancelResponse : CancelOrderResponse)
deriving DecidableEq, Repr

/-! ### `preprocess_container` -/

/-- The client order id and the user id packed into one key. -/
def transformedClOrdId (A : Arith) (clOrdId userId : Int) : Int := A.int (A.int (clOrdId * maxUserCount) + userId)

/-- What `preprocess_container` returns, or the query it waits on. -/
inductive Preprocessed
  | value (result : Except String (Option Int))
  | query (fillCostQuery : FillCostQuery)

section

variable (cfg : Config) (A : Arith)

def OrderInfo.ofNewOrder (o : NewOrderSingle) (arrivalGatewayId : Int) : OrderInfo :=
  { senderCompId := o.senderCompId, symbol := o.symbol, side := o.side, price := o.price,
    timeInForce := o.timeInForce, leavesQty := o.orderQty, cumQty := 0, avgPx := 0, arrivalGatewayId }

/-- The entries of an order in `order_id_map` and `order_info_map`. -/
def OrderManager.register (om : OrderManager) (orderId key : Int) (info : OrderInfo) : OrderManager :=
  { om with orderIdMap := om.orderIdMap.insert orderId key, orderInfoMap := emplace om.orderInfoMap orderId info }

def preprocessNewOrder (querySent : Bool) (arrivalGatewayId : Int) (om : OrderManager) (newOrder : NewOrderSingle) :
    OrderManager × NewOrderSingle × Preprocessed :=
  let orderId := A.int (om.latestAssignedOrderId + 1)
  let om := { om with latestAssignedOrderId := orderId }
  let newOrder := { newOrder with orderId := some orderId }
  match cfg.usernameUserIdMap newOrder.senderCompId with
  | none => (om, newOrder, .value (.error "Order request contains unknown username"))
  | some userId =>
    let key := transformedClOrdId A newOrder.clOrdId userId
    if om.orderIdMap.right key = none then
      let om := om.register orderId key (.ofNewOrder newOrder arrivalGatewayId)
      if newOrder.ordType = .market ∧ newOrder.side = .bid then
        if querySent then (om, newOrder, .query ⟨newOrder.symbol, newOrder.orderQty, .ask⟩)
        else (om, newOrder, .value (.error "Order request dropped due to internal reasons"))
      else (om, newOrder, .value (.ok none))
    else (om, newOrder, .value (.error "Client order id has already been used"))

def preprocessCancelRequest (om : OrderManager) (cancelRequest : CancelOrderRequest) :
    CancelOrderRequest × Except String (Option Int) :=
  match cfg.usernameUserIdMap cancelRequest.senderCompId with
  | none => (cancelRequest, .error "Cancel request contains unknown username")
  | some userId =>
    match om.orderIdMap.right (transformedClOrdId A cancelRequest.origClOrdId userId) with
    | some orderId => ({ cancelRequest with orderId := some orderId }, .ok none)
    | none => (cancelRequest, .ok none)

def preprocessContainer (querySent : Bool) (arrivalGatewayId : Int) (om : OrderManager) :
    Container → Except Fault (OrderManager × Container × Preprocessed)
  | .newOrderSingle newOrder =>
    let (om, newOrder, result) := preprocessNewOrder cfg A querySent arrivalGatewayId om newOrder
    .ok (om, .newOrderSingle newOrder, result)
  | .cancelOrderRequest cancelRequest =>
    let (cancelRequest, result) := preprocessCancelRequest cfg A om cancelRequest
    .ok (om, .cancelOrderRequest cancelRequest, .value result)
  | _ => .error .terminate

/-! ### `validate_container` -/

/-- Take `delta` from a balance if it suffices. -/
def reserve (bc : BalanceChecker) (brokerId ticker : String) (delta : Int) (insufficient : String) :
    Except Fault (String × BalanceChecker) := do
  let sufficient ← bc.hasSufficientBalance A brokerId ticker delta
  if sufficient then
    return ("ok", ← bc.updateBalance A brokerId ticker delta)
  else
    return (insufficient, bc)

def validateNewOrder (bc : BalanceChecker) (marketBidFillCost : Option Int) (newOrder : NewOrderSingle) :
    Except Fault (String × BalanceChecker) :=
  if newOrder.symbol ∉ cfg.activeSymbols then .ok ("Unrecognized symbol", bc)
  else if newOrder.price.any (fun price => price ≤ 0) then .ok ("Price is not positive", bc)
  else if newOrder.orderQty ≤ 0 then .ok ("Quantity is not positive", bc)
  else if bc.brokerIdExists newOrder.senderCompId = false then
    .ok ("Balance record for not found during validation", bc)
  else
    match newOrder.side with
    | .bid => do
      let ownsUsd ← bc.brokerOwnsTicker newOrder.senderCompId usdSymbol
      if ownsUsd = false then
        return ("User has no USD balance record", bc)
      else
        match newOrder.ordType with
        | .limit => do
          let price ← orFail newOrder.price .badOptionalAccess
          reserve A bc newOrder.senderCompId usdSymbol (A.int64 (A.int64 (-price) * newOrder.orderQty))
            "User has insufficient USD balance"
        | .market =>
          match marketBidFillCost with
          | some fillCost =>
            reserve A bc newOrder.senderCompId usdSymbol (A.int (-fillCost)) "User has insufficient USD balance"
          | none => return ("User has insufficient USD balance", bc)
    | .ask => do
      let ownsSymbol ← bc.brokerOwnsTicker newOrder.senderCompId newOrder.symbol
      if ownsSymbol = false then
        return ("User has no " ++ newOrder.symbol ++ " record", bc)
      else
        reserve A bc newOrder.senderCompId newOrder.symbol (A.int (-newOrder.orderQty))
          ("User has insufficient " ++ newOrder.symbol ++ " balance")

def validateContainer (bc : BalanceChecker) (marketBidFillCost : Option Int) :
    Container → Except Fault (String × BalanceChecker)
  | .newOrderSingle newOrder => validateNewOrder cfg A bc marketBidFillCost newOrder
  | .cancelOrderRequest cancelRequest =>
    .ok (if cancelRequest.orderId.isSome then "ok" else "Cancel request original client order ID not found", bc)
  | _ => .ok ("Unsupported request type", bc)

end

/-! ### `forward_and_reply` -/

section

variable (cfg : Config)

def generateRejectionReportContainer (orderInfoStore : Int → Option OrderInfo) (orderRejectReason execId : String) :
    Container → Except Fault ExecutionReport
  | .newOrderSingle newOrder => do
    let orderId ← orFail newOrder.orderId .badOptionalAccess
    return {
      senderCompId := cfg.serverName, targetCompId := newOrder.senderCompId, orderId, clOrderId := newOrder.clOrdId
      origClOrdId := none, execId, execTransType := .execTransNew, execType := .statusRejected
      ordStatus := .statusRejected, text := some orderRejectReason, symbol := newOrder.symbol, side := newOrder.side
      price := newOrder.price, timeInForce := newOrder.timeInForce, leavesQty := 0, cumQty := 0, avgPx := 0 }
  | .cancelOrderRequest cancelRequest => do
    let orderInfo ← match cancelRequest.orderId with
      | some orderId => orFail (orderInfoStore orderId) .outOfRange
      | none => .ok .default
    return {
      senderCompId := cfg.serverName, targetCompId := cancelRequest.senderCompId
      orderId := cancelRequest.orderId.getD (-1), clOrderId := cancelRequest.clOrdId
      origClOrdId := some cancelRequest.origClOrdId, execId, execTransType := .execTransNew
      execType := .statusRejected, ordStatus := .statusRejected, text := some orderRejectReason
      symbol := orderInfo.symbol, side := orderInfo.side, price := orderInfo.price
      timeInForce := orderInfo.timeInForce, leavesQty := 0, cumQty := orderInfo.cumQty, avgPx := orderInfo.avgPx }
  | _ => .error .terminate

def generateSuccessReportContainer (orderInfoMap : Int → Option OrderInfo) (execId : String) :
    Container → Except Fault ExecutionReport
  | .newOrderSingle newOrder => do
    let orderId ← orFail newOrder.orderId .badOptionalAccess
    return {
      senderCompId := cfg.serverName, targetCompId := newOrder.senderCompId, orderId, clOrderId := newOrder.clOrdId
      origClOrdId := none, execId, execTransType := .execTransNew, execType := .statusNew, ordStatus := .statusNew
      text := none, symbol := newOrder.symbol, side := newOrder.side, price := newOrder.price
      timeInForce := newOrder.timeInForce, leavesQty := newOrder.orderQty, cumQty := 0, avgPx := 0 }
  | .cancelOrderRequest cancelRequest => do
    let orderId ← orFail cancelRequest.orderId .badOptionalAccess
    let orderInfo ← orFail (orderInfoMap orderId) .outOfRange
    return {
      senderCompId := cfg.serverName, targetCompId := cancelRequest.senderCompId, orderId
      clOrderId := cancelRequest.clOrdId, origClOrdId := some cancelRequest.origClOrdId, execId
      execTransType := .execTransNew, execType := .statusPendingCancel, ordStatus := .statusPendingCancel, text :=
        none
      symbol := orderInfo.symbol, side := orderInfo.side, price := orderInfo.price
      timeInForce := orderInfo.timeInForce, leavesQty := orderInfo.leavesQty, cumQty := orderInfo.cumQty
      avgPx := orderInfo.avgPx }
  | _ => .error .assertion

/-- What a request makes the order manager send: containers to the matching engine, reports to gateways, calls to the
database. -/
structure Output where
  forwarded : List Container
  reports : List (Int × ExecutionReport)
  database : List DatabaseCall
deriving DecidableEq

def forwardAndReply (isContainerValid : Bool) (container : Container) (orderInfoMap : Int → Option OrderInfo)
    (arrivalGatewayId : Int) (orderRejectReason : Option String) (execId : String) : Except Fault Output := do
  require (if isContainerValid then orderRejectReason = none else orderRejectReason ≠ none)
    (.contract .forwardAndReply)
  if isContainerValid then
    let executionReport ← generateSuccessReportContainer cfg orderInfoMap execId container
    return ⟨[container], [(arrivalGatewayId, executionReport)], []⟩
  else
    let reason ← orFail orderRejectReason .badOptionalAccess
    let executionReport ← generateRejectionReportContainer cfg orderInfoMap reason execId container
    return ⟨[], [(arrivalGatewayId, executionReport)], []⟩

/-! ### `update_database` -/

/-- The balance of a user as it is written to the database. -/
def persistBalance (bc : BalanceChecker) (username symbol : String) : Except Fault DatabaseCall := do
  let userId ← orFail (cfg.usernameUserIdMap username) .outOfRange
  return .updateBalance userId cfg.serverId symbol (← bc.getBalance username symbol)

def updateDatabase (om : OrderManager) (validContainer : Option Bool) : Container → Except Fault (List DatabaseCall)
  | .newOrderSingle newOrder => do
    require (newOrder.orderId ≠ none ∧ validContainer ≠ none) (.contract .updateDatabase)
    let orderId ← orFail newOrder.orderId .badOptionalAccess
    let valid ← orFail validContainer .badOptionalAccess
    return [.insertOrder orderId newOrder valid]
  | .cancelOrderRequest cancelRequest => do
    require (validContainer ≠ none) (.contract .updateDatabase)
    let valid ← orFail validContainer .badOptionalAccess
    return [.insertCancelRequest cancelRequest valid]
  | .executionReport _ => return []
  | .trade trade => do
    let buyerUsd ← persistBalance cfg om.balanceChecker trade.buyerId usdSymbol
    let buyerSymbol ← persistBalance cfg om.balanceChecker trade.buyerId trade.ticker
    let sellerUsd ← persistBalance cfg om.balanceChecker trade.sellerId usdSymbol
    let sellerSymbol ← persistBalance cfg om.balanceChecker trade.sellerId trade.ticker
    return [.insertTrade trade, buyerUsd, buyerSymbol, sellerUsd, sellerSymbol]
  | .cancelOrderResponse cancelResponse =>
    if cancelResponse.success then do
      let orderInfo ← orFail (om.orderInfoMap cancelResponse.orderId) .outOfRange
      require (orderInfo.price ≠ none) .assertion
      let update ← persistBalance cfg om.balanceChecker orderInfo.senderCompId
        (match orderInfo.side with | .bid => usdSymbol | .ask => orderInfo.symbol)
      return [.insertCancelResponse cancelResponse, update]
    else return [.insertCancelResponse cancelResponse]
  | _ => .error .assertion

/-! ### `update_internal_data` -/

variable (A : Arith)

/-- One of the two orders of a trade: average price, open and filled quantity. -/
def OrderInfo.applyTrade (info : OrderInfo) (price quantity : Int) : Except Fault OrderInfo := do
  let numerator := A.int (A.int (info.avgPx * info.cumQty) + A.int (price * quantity))
  let denominator := A.int (quantity + info.cumQty)
  require (denominator ≠ 0) .divisionByZero
  return { info with
    avgPx := A.int (Int.tdiv numerator denominator)
    leavesQty := A.int (info.leavesQty - quantity)
    cumQty := A.int (info.cumQty + quantity) }

def applyTradeTo (infos : Int → Option OrderInfo) (orderId price quantity : Int) :
    Except Fault (Int → Option OrderInfo) := do
  let info ← orFail (infos orderId) .outOfRange
  let info' ← info.applyTrade A price quantity
  return Function.update infos orderId (some info')

/-- The refund for a limit buyer who pays less than the limit. -/
def refundImprovement (bc : BalanceChecker) (limit : Option Int) (trade : TradeContainer) :
    Except Fault BalanceChecker :=
  match limit with
  | none => .ok bc
  | some price => do
    let priceImprovement := A.int (price - trade.price)
    require (0 ≤ priceImprovement) .assertion
    if 0 < priceImprovement then
      bc.updateBalance A trade.buyerId usdSymbol (A.int (priceImprovement * trade.quantity))
    else return bc

def updateInternalData (om : OrderManager) : Container → Except Fault OrderManager
  | .trade trade => do
    require (om.orderInfoMap trade.takerOrderId ≠ none ∧ om.orderInfoMap trade.makerOrderId ≠ none)
      (.contract .updateInternalData)
    let infos ← applyTradeTo A om.orderInfoMap trade.takerOrderId trade.price trade.quantity
    let infos ← applyTradeTo A infos trade.makerOrderId trade.price trade.quantity
    let bc ← om.balanceChecker.updateBalance A trade.buyerId trade.ticker trade.quantity
    let buyerInfo ← orFail (infos trade.buyerOrderId) .outOfRange
    let bc ← refundImprovement A bc buyerInfo.price trade
    let bc ← bc.updateBalance A trade.sellerId usdSymbol (A.int (trade.price * trade.quantity))
    return { om with orderInfoMap := infos, balanceChecker := bc }
  | .cancelOrderResponse cancelResponse =>
    if cancelResponse.success then do
      let orderInfo ← orFail (om.orderInfoMap cancelResponse.orderId) .outOfRange
      let price ← orFail orderInfo.price .assertion
      let bc ← match orderInfo.side with
        | .bid =>
          om.balanceChecker.updateBalance A orderInfo.senderCompId usdSymbol (A.int (price * orderInfo.leavesQty))
        | .ask => om.balanceChecker.updateBalance A orderInfo.senderCompId orderInfo.symbol orderInfo.leavesQty
      return { om with balanceChecker := bc }
    else return om
  | _ => .error .terminate

/-! ### `return_execution_report` -/

/-- The report for one of the two orders of a trade. -/
def generateMatchedOrderReport (om : OrderManager) (trade : TradeContainer) (targetCompId : String) (orderId : Int)
    (side : Side) (execId : String) : Except Fault (Int × ExecutionReport) := do
  let key ← orFail (om.orderIdMap.left orderId) .outOfRange
  let info ← orFail (om.orderInfoMap orderId) .outOfRange
  let status := if info.leavesQty = 0 then .statusFilled else .statusPartiallyFilled
  return (info.arrivalGatewayId,
    { senderCompId := cfg.serverName, targetCompId, orderId, clOrderId := Int.tdiv key maxUserCount
      origClOrdId := none, execId, execTransType := .execTransNew, execType := status, ordStatus := status
      text := none, symbol := trade.ticker, side, price := some trade.price, timeInForce := info.timeInForce
      leavesQty := info.leavesQty, cumQty := info.cumQty, avgPx := info.avgPx })

/-- The reports for the taker and the maker. -/
def generateMatchedOrderReportContainers (om : OrderManager) (trade : TradeContainer) (ids : Nat → String) :
    Except Fault (List (Int × ExecutionReport)) := do
  let taker ← generateMatchedOrderReport cfg om trade trade.takerId trade.takerOrderId
    (if trade.isTakerBuyer then .bid else .ask) (ids 0)
  let maker ← generateMatchedOrderReport cfg om trade trade.makerId trade.makerOrderId
    (if trade.isTakerBuyer then .ask else .bid) (ids 1)
  return [taker, maker]

def generateCancelResponseReportContainer (om : OrderManager) (cancelResponse : CancelOrderResponse)
    (execId : String) : Except Fault (Int × ExecutionReport) := do
  let info ← orFail (om.orderInfoMap cancelResponse.orderId) .outOfRange
  let key ← orFail (om.orderIdMap.left cancelResponse.orderId) .outOfRange
  let status := if cancelResponse.success then .statusCanceled else .statusRejected
  return (info.arrivalGatewayId,
    { senderCompId := cfg.serverName, targetCompId := info.senderCompId, orderId := cancelResponse.orderId
      clOrderId := cancelResponse.clOrdId, origClOrdId := some (Int.tdiv key maxUserCount), execId
      execTransType := .execTransNew, execType := status, ordStatus := status
      text := some (if cancelResponse.success then "" else "Order had already been matched")
      symbol := info.symbol, side := info.side, price := info.price, timeInForce := info.timeInForce
      leavesQty := 0, cumQty := info.cumQty, avgPx := info.avgPx })

def returnExecutionReport (om : OrderManager) (ids : Nat → String) :
    Container → Except Fault (List (Int × ExecutionReport))
  | .trade trade => generateMatchedOrderReportContainers cfg om trade ids
  | .cancelOrderResponse cancelResponse => do
    return [← generateCancelResponseReportContainer cfg om cancelResponse (ids 0)]
  | _ => .error .terminate

/-! ### The two halves of the loop -/

/-- The part of a request after `preprocess_container`. -/
def finishRequest (arrivalGatewayId : Int) (ids : Nat → String) (om : OrderManager) (container : Container) :
    Except String (Option Int) → Except Fault (OrderManager × Output)
  | .ok marketBidFillCost => do
    let (validationResult, bc) ← validateContainer cfg A om.balanceChecker marketBidFillCost container
    let om := { om with balanceChecker := bc }
    let valid := validationResult = "ok"
    let out ← forwardAndReply cfg valid container om.orderInfoMap arrivalGatewayId
      (if valid then none else some validationResult) (ids 0)
    let database ← updateDatabase cfg om (some valid) container
    return (om, { out with database })
  | .error err => do
    let out ← forwardAndReply cfg false container om.orderInfoMap arrivalGatewayId (some err) (ids 0)
    let database ← updateDatabase cfg om (some false) container
    return (om, { out with database })

/-- A request is done, or it waits for the answer to a query. -/
inductive Outcome
  | done (out : Output)
  | waiting (newOrder : NewOrderSingle) (fillCostQuery : FillCostQuery)

/-- A request up to the point where it is done or waits. -/
def handleRequest (querySent : Bool) (arrivalGatewayId : Int) (ids : Nat → String) (om : OrderManager)
    (container : Container) : Except Fault (OrderManager × Outcome) := do
  let (om, container, result) ← preprocessContainer cfg A querySent arrivalGatewayId om container
  match result, container with
  | .value r, container => do
    let (om, out) ← finishRequest cfg A arrivalGatewayId ids om container r
    return (om, .done out)
  | .query q, .newOrderSingle newOrder => return (om, .waiting newOrder q)
  | .query _, _ => .error .terminate

/-- `assert(std::holds_alternative<core::FillCostResponseContainer>(response_container))`. -/
def receiveFillCost : Container → Except Fault (Option Int)
  | .fillCostResponse r => .ok r.totalCost
  | _ => .error .assertion

/-- A market bid after the answer to its query. -/
def completeRequest (arrivalGatewayId : Int) (ids : Nat → String) (om : OrderManager) (newOrder : NewOrderSingle)
    (answer : Container) : Except Fault (OrderManager × Output) := do
  let totalCost ← receiveFillCost answer
  finishRequest cfg A arrivalGatewayId ids om (.newOrderSingle newOrder) (.ok totalCost)

/-- A response of the matching engine. -/
def handleResponse (ids : Nat → String) (om : OrderManager) (container : Container) :
    Except Fault (OrderManager × Output) := do
  let om ← updateInternalData A om container
  let reports ← returnExecutionReport cfg om ids container
  let database ← updateDatabase cfg om none container
  return (om, ⟨[], reports, database⟩)

end

end Elsa
