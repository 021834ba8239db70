import Mathlib.Init
import Elsa.Base.FixedWidth

/-!
# Orders, containers and faults

The enumerations of `core/orders.h`, the messages of `core/containers.h` that the services exchange, the constants
of `core/constants.h`, and the ways in which a service can stop: a failed contract, a failed assertion, a lookup of
an unknown key, an access to an empty optional.
-/

namespace Elsa

inductive OrderType
  | limit
  | market
deriving DecidableEq, Repr

inductive Side
  | bid
  | ask
deriving DecidableEq, Repr

inductive TimeInForce
  | day
  | gtc
deriving DecidableEq, Repr

inductive ExecTransType
  | execTransNew
  | execTransCancel
  | execTransCorrect
  | execTransStatus
deriving DecidableEq, Repr

inductive ExecTypeOrOrderStatus
  | statusNew
  | statusPartiallyFilled
  | statusFilled
  | statusCanceled
  | statusPendingCancel
  | statusRejected
deriving DecidableEq, Repr

/-- The other side of the book. -/
def Side.opposite : Side → Side
  | .bid => .ask
  | .ask => .bid

@[simp] theorem Side.opposite_opposite (s : Side) : s.opposite.opposite = s := by cases s <;> rfl

theorem Side.opposite_ne (s : Side) : s.opposite ≠ s := by cases s <;> decide

theorem Side.eq_or_opposite (s s' : Side) : s = s' ∨ s = s'.opposite := by cases s <;> cases s' <;> decide

structure NewOrderSingle where
  senderCompId : String
  targetCompId : String
  orderId : Option Int
  clOrdId : Int
  symbol : String
  side : Side
  orderQty : Int
  ordType : OrderType
  price : Option Int
  timeInForce : TimeInForce
deriving DecidableEq, Repr

structure CancelOrderRequest where
  senderCompId : String
  targetCompId : String
  orderId : Option Int
  origClOrdId : Int
  clOrdId : Int
  symbol : String
  side : Side
  orderQty : Int
deriving DecidableEq, Repr

structure ExecutionReport where
  senderCompId : String
  targetCompId : String
  orderId : Int
  clOrderId : Int
  origClOrdId : Option Int
  execId : String
  execTransType : ExecTransType
  execType : ExecTypeOrOrderStatus
  ordStatus : ExecTypeOrOrderStatus
  text : Option String
  symbol : String
  side : Side
  price : Option Int
  timeInForce : TimeInForce
  leavesQty : Int
  cumQty : Int
  avgPx : Int
deriving DecidableEq, Repr

structure FillCostQuery where
  symbol : String
  quantity : Int
  side : Side
deriving DecidableEq, Repr

structure FillCostResponse where
  totalCost : Option Int
deriving DecidableEq, Repr

structure TradeContainer where
  ticker : String
  price : Int
  quantity : Int
  tradeId : String
  takerId : String
  makerId : String
  takerOrderId : Int
  makerOrderId : Int
  isTakerBuyer : Bool
deriving DecidableEq, Repr

structure CancelOrderResponse where
  orderId : Int
  clOrdId : Int
  success : Bool
deriving DecidableEq, Repr

/-- `core::Container`. -/
inductive Container
  | newOrderSingle (o : NewOrderSingle)
  | cancelOrderRequest (c : CancelOrderRequest)
  | executionReport (r : ExecutionReport)
  | fillCostQuery (q : FillCostQuery)
  | fillCostResponse (r : FillCostResponse)
  | trade (t : TradeContainer)
  | cancelOrderResponse (r : CancelOrderResponse)
deriving DecidableEq, Repr

/-- The user a request comes from. -/
def Container.senderCompId : Container → String
  | .newOrderSingle o => o.senderCompId
  | .cancelOrderRequest c => c.senderCompId
  | _ => ""

open Base in
/-- The containers that `GatewayApplication` builds: new orders without an order id, with a price exactly for limit
orders, and cancellations; the numbers come from `std::stoi` and fixed-point conversions to `int`. -/
def GatewayShaped : Container → Prop
  | .newOrderSingle o => o.orderId = none ∧ (o.ordType = .limit ↔ o.price.isSome = true) ∧ IsInt32 o.clOrdId ∧
      IsInt32 o.orderQty ∧ o.price.all (fun p => IsInt32 p) = true
  | .cancelOrderRequest c => IsInt32 c.origClOrdId ∧ IsInt32 c.clOrdId ∧ IsInt32 c.orderQty ∧
      c.orderId.all (fun id => IsInt32 id) = true
  | _ => False

instance (c : Container) : Decidable (GatewayShaped c) := by
  cases c
  · exact inferInstanceAs (Decidable (_ ∧ _ ∧ _ ∧ _ ∧ _))
  · exact inferInstanceAs (Decidable (_ ∧ _ ∧ _ ∧ _))
  all_goals exact inferInstanceAs (Decidable False)

open Base in
/-- The numbers of a container are values of `int`. -/
def Container.Fits : Container → Prop
  | .newOrderSingle o => (∀ id ∈ o.orderId, IsInt32 id) ∧ IsInt32 o.clOrdId ∧ IsInt32 o.orderQty ∧
      ∀ p ∈ o.price, IsInt32 p
  | .cancelOrderRequest c => (∀ id ∈ c.orderId, IsInt32 id) ∧ IsInt32 c.origClOrdId ∧ IsInt32 c.clOrdId ∧
      IsInt32 c.orderQty
  | .executionReport r => IsInt32 r.orderId ∧ IsInt32 r.clOrderId ∧ (∀ id ∈ r.origClOrdId, IsInt32 id) ∧
      (∀ p ∈ r.price, IsInt32 p) ∧ IsInt32 r.leavesQty ∧ IsInt32 r.cumQty ∧ IsInt32 r.avgPx
  | .fillCostQuery q => IsInt32 q.quantity
  | .fillCostResponse r => ∀ cost ∈ r.totalCost, IsInt32 cost
  | .trade t => IsInt32 t.price ∧ IsInt32 t.quantity ∧ IsInt32 t.takerOrderId ∧ IsInt32 t.makerOrderId
  | .cancelOrderResponse r => IsInt32 r.orderId ∧ IsInt32 r.clOrdId

instance (c : Container) : Decidable c.Fits := by
  cases c
  · exact inferInstanceAs (Decidable (_ ∧ _ ∧ _ ∧ _))
  · exact inferInstanceAs (Decidable (_ ∧ _ ∧ _ ∧ _))
  · exact inferInstanceAs (Decidable (_ ∧ _ ∧ _ ∧ _ ∧ _ ∧ _ ∧ _))
  · exact inferInstanceAs (Decidable (Base.IsInt32 _))
  · exact inferInstanceAs (Decidable (∀ cost ∈ _, Base.IsInt32 cost))
  · exact inferInstanceAs (Decidable (_ ∧ _ ∧ _ ∧ _))
  · exact inferInstanceAs (Decidable (_ ∧ _))

/-- A market order of the gateway has no price. -/
theorem NewOrderSingle.price_eq_none {o : NewOrderSingle} (hshape : o.ordType = .limit ↔ o.price.isSome = true)
    (htype : o.ordType = .market) : o.price = none := by
  cases hp : o.price with
  | none => rfl
  | some p =>
    have hlimit := hshape.2 (by rw [hp]; rfl)
    rw [htype] at hlimit
    cases hlimit

namespace TradeContainer

def buyerId (t : TradeContainer) : String := if t.isTakerBuyer then t.takerId else t.makerId

def sellerId (t : TradeContainer) : String := if t.isTakerBuyer then t.makerId else t.takerId

def buyerOrderId (t : TradeContainer) : Int := if t.isTakerBuyer then t.takerOrderId else t.makerOrderId

end TradeContainer

def maxTickerLength : Nat := 5

def maxUsernameLength : Nat := 16

def uuidLength : Nat := 37

def maxUserCount : Int := 1000

def orderBookAggregateLevels : Nat := 50

/-- The functions whose contracts are checked. -/
inductive Checked
  | addOrder
  | cancelOrder
  | fill
  | createTrade
  | getLevelAggregate
  | getFillCost
  | processNewOrder
  | processCancel
  | brokerOwnsTicker
  | updateBalance
  | getBalance
  | hasSufficientBalance
  | forwardAndReply
  | updateDatabase
  | updateInternalData
deriving DecidableEq, Repr

/-- How a service stops: a contract of a function, an `assert`, `at` on a key that is not there, `value` of an empty
optional, a division by zero, `std::terminate`, the use of an iterator to an erased element. -/
inductive Fault
  | contract (f : Checked)
  | assertion
  | outOfRange
  | badOptionalAccess
  | divisionByZero
  | terminate
  | danglingIterator
deriving DecidableEq, Repr

end Elsa
