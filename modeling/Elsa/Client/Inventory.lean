import Mathlib.Algebra.Order.Field.Rat
import Mathlib.Tactic.Linarith
import Elsa.System.Reports

/-!
# The inventory of a trading bot

An execution report goes through three translations: `GatewayApplication::process_report` makes a FIX message of it,
`FixClient::onMessage` turns the message into the report of the client library, and `on_order_update` of
`MMFixClient` and `InformedFixClient` (the same code) changes the inventory.  Quantities are exact decimals here.

In the `switch` of `onMessage` two cases run into the next one, so that a filled report reaches the bot as a
cancelled one; for a rejected report the status is never set, and the bot reads what was in the memory before.  So
the inventory stays what it was, up to that memory (`receive_apply`).
-/

namespace Elsa

open Base

def decimalToIntMultiplier : ℚ := 100

/-! ### `GatewayApplication::process_report` -/

inductive FixStatus
  | new
  | partialFill
  | fill
  | canceled
  | rejected
deriving DecidableEq, Repr

inductive FixSide
  | buy
  | sell
deriving DecidableEq, Repr

/-- The fields of `FIX42::ExecutionReport` that the gateway sets; ids are kept as numbers. -/
structure FixExecutionReport where
  orderId : Int
  execId : String
  execType : FixStatus
  ordStatus : FixStatus
  symbol : String
  side : FixSide
  leavesQty : ℚ
  cumQty : ℚ
  avgPx : ℚ
  clOrdId : Int
  orderQty : ℚ
  lastPx : ℚ
  origClOrdId : Option Int
  price : Option ℚ
  text : Option String

/-- The mapping of `exec_type` and of `ord_status`. -/
def fixStatus : ExecTypeOrOrderStatus → FixStatus
  | .statusFilled => .fill
  | .statusPartiallyFilled => .partialFill
  | .statusCanceled => .canceled
  | .statusRejected => .rejected
  | .statusNew => .new
  | .statusPendingCancel => .new

def processReport (r : ExecutionReport) : FixExecutionReport :=
  { orderId := r.orderId, execId := r.execId, execType := fixStatus r.execType, ordStatus := fixStatus r.ordStatus
    symbol := r.symbol, side := match r.side with | .bid => .buy | .ask => .sell
    leavesQty := r.leavesQty / decimalToIntMultiplier, cumQty := r.cumQty / decimalToIntMultiplier
    avgPx := r.avgPx / decimalToIntMultiplier, clOrdId := r.clOrderId
    orderQty := ((r.leavesQty + r.cumQty : Int) : ℚ) / decimalToIntMultiplier, lastPx := 0
    origClOrdId := r.origClOrdId
    price := r.price.map fun p => p / decimalToIntMultiplier, text := r.text }

/-! ### `FixClient::onMessage` -/

namespace Client

inductive OrderStatus
  | new
  | filled
  | partiallyFilled
  | canceled
deriving DecidableEq, Repr

inductive OrderSide
  | buy
  | sell
deriving DecidableEq, Repr

/-- The report of the client library; `avg_px` is never set and never read. -/
structure ExecutionReport where
  orderId : Int
  clientOrderId : Int
  ticker : String
  side : OrderSide
  status : OrderStatus
  filledQty : ℚ
  lastPx : ℚ
  cumulatedFilledQty : ℚ
  remainingQty : ℚ

/-- The assignments to `exec_report.status` that the `switch` runs through, in this order: the cases for `FILLED`
and for `PARTIALLY_FILLED` have no `break`. -/
def statusAssignments : FixStatus → List OrderStatus
  | .new => [.new]
  | .fill => [.filled, .partiallyFilled, .canceled]
  | .partialFill => [.partiallyFilled, .canceled]
  | .canceled => [.canceled]
  | .rejected => []

/-- The report for a message; `uninitialised` is what the memory of `exec_report.status` holds. -/
def onMessage (uninitialised : OrderStatus) (m : FixExecutionReport) : ExecutionReport :=
  { orderId := m.orderId, clientOrderId := m.clOrdId, ticker := m.symbol
    side := if m.side = .buy then .buy else .sell
    status := (statusAssignments m.ordStatus).getLastD uninitialised
    filledQty := m.orderQty, lastPx := m.lastPx, cumulatedFilledQty := m.cumQty, remainingQty := m.leavesQty }

/-! ### `on_order_update` -/

/-- `m_inventory`. -/
abbrev Inventory := String → ℚ

def onOrderUpdate (inventory : Inventory) (report : ExecutionReport) : Inventory :=
  if report.status = .filled ∨ report.status = .partiallyFilled then
    match report.side with
    | .buy => Function.update inventory report.ticker (inventory report.ticker + report.filledQty)
    | .sell => Function.update inventory report.ticker (inventory report.ticker - report.filledQty)
  else inventory

/-- The reports that go to a user. -/
def received (log : List ReportEntry) (user : String) : List Elsa.ExecutionReport :=
  (log.map ReportEntry.report).filter fun r => r.targetCompId = user

/-- One report on its way from the gateway to the inventory. -/
def deliver (uninitialised : OrderStatus) (inventory : Inventory) (r : Elsa.ExecutionReport) : Inventory :=
  onOrderUpdate inventory (onMessage uninitialised (processReport r))

/-- The reports in their order; the memory may hold something else each time. -/
def receive (memory : Nat → OrderStatus) : Nat → List Elsa.ExecutionReport → Inventory → Inventory
  | _, [], inventory => inventory
  | k, r :: rs, inventory => receive memory (k + 1) rs (deliver (memory k) inventory r)

/-- The quantity of a ticker that the trades of one side of the user moved. -/
def tradedQty (trader : TradeContainer → String) (trades : List TradeContainer) (user ticker : String) : ℚ :=
  ((trades.filter fun t => t.ticker = ticker ∧ trader t = user).map fun t =>
    (t.quantity : ℚ) / decimalToIntMultiplier).sum

/-- The inventory has moved by what the user bought and sold, whatever the memory held. -/
def TracksInventory (s : Reporting) (user ticker : String) : Prop :=
  ∀ memory inventory, receive memory 0 (received s.log user) inventory ticker =
    inventory ticker + tradedQty TradeContainer.buyerId s.exchange.history.settled user ticker -
      tradedQty TradeContainer.sellerId s.exchange.history.settled user ticker

/-! ### What reaches the inventory -/

/-- A filled report arrives as a cancelled one. -/
private theorem onMessage_status (u : OrderStatus) (r : Elsa.ExecutionReport) :
    (onMessage u (processReport r)).status = match r.ordStatus with
      | .statusNew | .statusPendingCancel => .new
      | .statusFilled | .statusPartiallyFilled | .statusCanceled => .canceled
      | .statusRejected => u := by
  unfold onMessage processReport
  cases r.ordStatus <;> rfl

/-- A report that is not rejected changes nothing. -/
private theorem deliver_of_not_rejected (u : OrderStatus) (inventory : Inventory) {r : Elsa.ExecutionReport}
    (h : r.ordStatus ≠ .statusRejected) : deliver u inventory r = inventory := by
  refine if_neg ?_
  rw [onMessage_status]
  cases hs : r.ordStatus with
  | statusRejected => exact absurd hs h
  | _ => simp

/-- Nor does a rejected one, if the memory did not hold the status of a fill. -/
private theorem deliver_new (inventory : Inventory) (r : Elsa.ExecutionReport) :
    deliver .new inventory r = inventory := by
  refine if_neg ?_
  rw [onMessage_status]
  cases r.ordStatus <;> decide

/-- A report that counts as a fill moves the inventory of its ticker by its quantity. -/
private theorem onOrderUpdate_fill {report : ExecutionReport}
    (h : report.status = .filled ∨ report.status = .partiallyFilled) (inventory : Inventory) :
    onOrderUpdate inventory report = Function.update inventory report.ticker
      (inventory report.ticker + (if report.side = .buy then report.filledQty else -report.filledQty)) := by
  unfold onOrderUpdate
  rw [if_pos h]
  cases report.side with
  | buy => rfl
  | sell => rw [if_neg (by decide), ← sub_eq_add_neg]

/-- A rejected report leaves the inventory of a ticker alone, if it is for another ticker or without a quantity. -/
private theorem deliver_apply (u : OrderStatus) (inventory : Inventory) {r : Elsa.ExecutionReport} {ticker : String}
    (h : r.ordStatus = .statusRejected → r.symbol = ticker → r.leavesQty + r.cumQty = 0) :
    deliver u inventory r ticker = inventory ticker := by
  by_cases hr : r.ordStatus = .statusRejected
  · by_cases hfill : (onMessage u (processReport r)).status = .filled ∨
      (onMessage u (processReport r)).status = .partiallyFilled
    · rw [deliver, onOrderUpdate_fill hfill]
      have hticker : (onMessage u (processReport r)).ticker = r.symbol := rfl
      by_cases hs : r.symbol = ticker
      · have hqty : (onMessage u (processReport r)).filledQty = 0 := by
          show ((r.leavesQty + r.cumQty : Int) : ℚ) / decimalToIntMultiplier = 0
          rw [h hr hs, Int.cast_zero, zero_div]
        rw [hticker, hs, Function.update_self, hqty, neg_zero, ite_self, add_zero]
      · rw [hticker, Function.update_of_ne (Ne.symm hs)]
    · exact congrFun (if_neg hfill) ticker
  · rw [deliver_of_not_rejected u inventory hr]

/-- If the memory holds the status of a fill, a rejected report counts as one. -/
private theorem deliver_filled (inventory : Inventory) {r : Elsa.ExecutionReport}
    (hr : r.ordStatus = .statusRejected) :
    ∃ q : ℚ, (q = ((r.leavesQty + r.cumQty : Int) : ℚ) / decimalToIntMultiplier ∨
        q = -(((r.leavesQty + r.cumQty : Int) : ℚ) / decimalToIntMultiplier)) ∧
      deliver .filled inventory r r.symbol = inventory r.symbol + q := by
  have hfill : (onMessage .filled (processReport r)).status = .filled := by
    rw [onMessage_status, hr]
  have hticker : (onMessage .filled (processReport r)).ticker = r.symbol := rfl
  rw [deliver, onOrderUpdate_fill (Or.inl hfill), hticker, Function.update_self]
  refine ⟨_, ?_, rfl⟩
  split
  · exact Or.inl rfl
  · exact Or.inr rfl

/-! ### Runs of reports -/

private theorem receive_append (memory : Nat → OrderStatus) (k : Nat) (rs rs' : List Elsa.ExecutionReport)
    (inventory : Inventory) :
    receive memory k (rs ++ rs') inventory = receive memory (k + rs.length) rs' (receive memory k rs inventory) := by
  induction rs generalizing k inventory with
  | nil => rfl
  | cons r rs ih =>
    rw [List.cons_append, receive, ih, receive, List.length_cons]
    congr 1
    omega

private theorem receive_new {memory : Nat → OrderStatus} {k : Nat} {rs : List Elsa.ExecutionReport}
    (h : ∀ i, k ≤ i → i < k + rs.length → memory i = .new) (inventory : Inventory) :
    receive memory k rs inventory = inventory := by
  induction rs generalizing k inventory with
  | nil => rfl
  | cons r rs ih =>
    rw [List.length_cons] at h
    rw [receive, h k (le_refl k) (by omega), deliver_new]
    exact ih (fun i h1 h2 => h i (by omega) (by omega)) inventory

/-- The inventory of a ticker moves only by rejected reports with a quantity. -/
theorem receive_apply (memory : Nat → OrderStatus) (k : Nat) {rs : List Elsa.ExecutionReport} {ticker : String}
    (h : ∀ r ∈ rs, r.ordStatus = .statusRejected → r.symbol = ticker → r.leavesQty + r.cumQty = 0)
    (inventory : Inventory) : receive memory k rs inventory ticker = inventory ticker := by
  induction rs generalizing k inventory with
  | nil => rfl
  | cons r rs ih =>
    rw [receive, ih (k + 1) fun r' hr' => h r' (List.mem_cons_of_mem _ hr')]
    exact deliver_apply _ _ (h r List.mem_cons_self)

/-- With the status of a fill in the memory at one rejected report, the inventory moves by that report alone. -/
private theorem receive_filled {rs : List Elsa.ExecutionReport} {r : Elsa.ExecutionReport} (hr : r ∈ rs)
    (hst : r.ordStatus = .statusRejected) (inventory : Inventory) :
    ∃ memory, ∃ q : ℚ, (q = ((r.leavesQty + r.cumQty : Int) : ℚ) / decimalToIntMultiplier ∨
        q = -(((r.leavesQty + r.cumQty : Int) : ℚ) / decimalToIntMultiplier)) ∧
      receive memory 0 rs inventory r.symbol = inventory r.symbol + q := by
  obtain ⟨before, after, rfl⟩ := List.append_of_mem hr
  refine ⟨fun i => if i = before.length then .filled else .new, ?_⟩
  rw [receive_append, receive, receive_new (fun i _ hi => if_neg (by omega))]
  rw [receive_new (fun i hi _ => if_neg (by omega)), Nat.zero_add, if_pos rfl]
  exact deliver_filled inventory hst

/-- The inventory tracks the fills exactly when the user bought as much as was sold, and no rejected report for the
ticker carries a quantity. -/
theorem tracksInventory_iff (s : Reporting) (user ticker : String) :
    TracksInventory s user ticker ↔
      tradedQty TradeContainer.buyerId s.exchange.history.settled user ticker =
          tradedQty TradeContainer.sellerId s.exchange.history.settled user ticker ∧
        ∀ r ∈ received s.log user, r.ordStatus = .statusRejected → r.symbol = ticker →
          r.leavesQty + r.cumQty = 0 := by
  unfold TracksInventory
  constructor
  · intro h
    have heq : tradedQty TradeContainer.buyerId s.exchange.history.settled user ticker =
        tradedQty TradeContainer.sellerId s.exchange.history.settled user ticker := by
      have h0 := h (fun _ => .new) (fun _ => 0)
      rw [receive_new fun _ _ _ => rfl] at h0
      linarith
    refine ⟨heq, fun r hr hst hsym => ?_⟩
    subst hsym
    obtain ⟨memory, q, hq, hmem⟩ := receive_filled hr hst fun _ => 0
    rw [h memory, heq] at hmem
    have hzero : ((r.leavesQty + r.cumQty : Int) : ℚ) / decimalToIntMultiplier = 0 := by
      rcases hq with hq | hq <;> linarith
    rw [div_eq_zero_iff, or_iff_left (by norm_num [decimalToIntMultiplier])] at hzero
    exact_mod_cast hzero
  · rintro ⟨heq, hrej⟩ memory inventory
    rw [receive_apply memory 0 hrej, heq, add_sub_cancel_right]

/-- `ann` sells the four shares again, and `bob` buys them. -/
def sampleRoundTrip : List Event :=
  Exchange.sampleTrading ++ [.response Exchange.noIds,
    .request (.newOrderSingle ⟨"ann", "GME_SERVER", none, 2, "GME", .ask, 4, .limit, some 99, .day⟩) 0 Exchange.noIds,
    .request (.newOrderSingle ⟨"bob", "GME_SERVER", none, 2, "GME", .bid, 4, .limit, some 99, .day⟩) 0 Exchange.noIds,
    .matching Exchange.zeroStamps, .matching Exchange.zeroStamps, .response Exchange.noIds]

theorem tracksInventory_sampleRoundTrip : ∃ s, Reporting.Reachable twoUsers .exact twoBalances s ∧
    tradedQty TradeContainer.buyerId s.exchange.history.settled "ann" "GME" = 4 / 100 ∧
    tradedQty TradeContainer.sellerId s.exchange.history.settled "ann" "GME" = 4 / 100 ∧
    TracksInventory s "ann" "GME" := by
  have hrun : (execIf (Reporting.step twoUsers .exact) (fun _ e => Exchange.Fed e)
      (Reporting.start twoUsers twoBalances) sampleRoundTrip).any (fun s : Reporting =>
      decide (tradedQty TradeContainer.buyerId s.exchange.history.settled "ann" "GME" = 4 / 100 ∧
        tradedQty TradeContainer.sellerId s.exchange.history.settled "ann" "GME" = 4 / 100 ∧
        ∀ r ∈ received s.log "ann", r.ordStatus = .statusRejected → r.symbol = "GME" →
          r.leavesQty + r.cumQty = 0)) = true := by
    decide +kernel
  obtain ⟨s, hreach, h⟩ := Reach.exists_of_execIf hrun
  obtain ⟨hbought, hsold, hrej⟩ := of_decide_eq_true h
  exact ⟨s, hreach, hbought, hsold,
    (tracksInventory_iff s "ann" "GME").2 ⟨hbought.trans hsold.symm, hrej⟩⟩

/-- `ann` bought four shares, and the inventory does not move. -/
theorem inventory_misses_fill :
    ∃ s, Reporting.Reachable twoUsers .exact twoBalances s ∧ ¬ TracksInventory s "ann" "GME" := by
  have hrun : (execIf (Reporting.step twoUsers .exact) (fun _ e => Exchange.Fed e)
      (Reporting.start twoUsers twoBalances) (Exchange.sampleTrading ++ [.response Exchange.noIds])).any
      (fun s : Reporting => decide ( tradedQty TradeContainer.buyerId s.exchange.history.settled "ann" "GME" =
        4 / 100 ∧ tradedQty TradeContainer.sellerId s.exchange.history.settled "ann" "GME" = 0)) = true := by
    decide +kernel
  obtain ⟨s, hreach, h⟩ := Reach.exists_of_execIf hrun
  obtain ⟨hbought, hsold⟩ := of_decide_eq_true h
  refine ⟨s, hreach, fun htracks => ?_⟩
  have h0 := htracks (fun _ => .new) (fun _ => 0)
  rw [receive_new fun _ _ _ => rfl, hbought, hsold] at h0
  norm_num at h0

end Client

end Elsa
