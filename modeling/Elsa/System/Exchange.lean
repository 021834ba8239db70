import Elsa.Engine.MatchingEngine
import Elsa.Manager.Process

/-!
# The exchange

The order manager and the matching engine joined by loss-free first-in first-out channels: requests from the order
manager to the engine, answers to queries on the same connection, responses on the other one.  A step is one message
taken by one of the two processes, in any order; a step in which a process stops is not a step.  While the order
manager waits for the answer to a query it takes nothing else.

`History` is not part of the program.  It records the orders that were accepted and the responses that the order
manager has processed.

A step runs one handler to its end (`Handled`, `step_iff`).  `Move` says once what a step can do, `move_of_step` that
it does nothing else.
-/

namespace Elsa

open Base LimitOrderBook

structure History where
  accepted : List NewOrderSingle
  processed : List Container

structure Exchange where
  om : OrderManager
  waiting : Option (NewOrderSingle × Int)
  me : MatchingEngine
  requests : List Container
  answers : List Container
  responses : List Container
  history : History

/-- The steps, with what they draw from outside. -/
inductive Event
  | request (container : Container) (arrivalGatewayId : Int) (ids : Nat → String)
  | answer (ids : Nat → String)
  | matching (draw : Nat → Stamp)
  | response (ids : Nat → String)

/-- The new order in a message to the engine. -/
def Container.newOrder? : Container → Option NewOrderSingle
  | .newOrderSingle o => some o
  | _ => none

def History.forward (h : History) (forwarded : List Container) : History :=
  { h with accepted := h.accepted ++ forwarded.filterMap Container.newOrder? }

def History.process (h : History) (c : Container) : History := { h with processed := h.processed ++ [c] }

/-- The trade in a response. -/
def Container.trade? : Container → Option TradeContainer
  | .trade t => some t
  | _ => none

/-- The order whose cancellation a response reports. -/
def Container.closed? : Container → Option Int
  | .cancelOrderResponse ⟨id, _, true⟩ => some id
  | _ => none

/-- The trades that the order manager has processed. -/
def History.settled (h : History) : List TradeContainer := h.processed.filterMap Container.trade?

/-- The orders whose cancellation the order manager has confirmed. -/
def History.confirmed (h : History) : List Int := h.processed.filterMap Container.closed?

namespace Exchange

variable (cfg : Config) (A : Arith)

def start (balances : BalanceChecker) : Exchange :=
  ⟨.init balances, none, .new cfg.activeSymbols, [], [], [], ⟨[], []⟩⟩

def step (s : Exchange) : Event → Option Exchange
  | .request c gw ids =>
    match s.waiting, handleRequest cfg A true gw ids s.om c with
    | none, .ok (om, .done out) =>
      some { s with om, requests := s.requests ++ out.forwarded, history := s.history.forward out.forwarded }
    | none, .ok (om, .waiting o q) =>
      some { s with om, waiting := some (o, gw), requests := s.requests ++ [.fillCostQuery q] }
    | _, _ => none
  | .answer ids =>
    match s.waiting, s.answers with
    | some (o, gw), a :: answers =>
      match completeRequest cfg A gw ids s.om o a with
      | .ok (om, out) =>
        some { s with om, waiting := none, answers, requests := s.requests ++ out.forwarded,
                      history := s.history.forward out.forwarded }
      | .error _ => none
    | _, _ => none
  | .matching draw =>
    match s.requests with
    | c :: requests =>
      match s.me.processContainer A draw (fun _ => true) c with
      | .ok (me, sent) =>
        some { s with me, requests, responses := s.responses ++ sent.responses, answers := s.answers ++ sent.answers }
      | .error _ => none
    | [] => none
  | .response ids =>
    match s.waiting, s.responses with
    | none, c :: responses =>
      match handleResponse cfg A ids s.om c with
      | .ok (om, _) => some { s with om, responses, history := s.history.process c }
      | .error _ => none
    | _, _ => none

/-- No message is on its way. -/
def Quiescent (s : Exchange) : Prop := s.waiting = none ∧ s.requests = [] ∧ s.answers = [] ∧ s.responses = []

instance (s : Exchange) : Decidable s.Quiescent :=
  inferInstanceAs (Decidable (_ ∧ _ ∧ _ ∧ _))

/-- The requests of a run have the shape that the gateway gives them. -/
def Fed : Event → Prop
  | .request c _ _ => GatewayShaped c
  | _ => True

instance (e : Event) : Decidable (Fed e) := by
  cases e
  · exact inferInstanceAs (Decidable (GatewayShaped _))
  all_goals exact inferInstanceAs (Decidable True)

/-- The request that the order manager takes in a step. -/
def request? : Event → Option Container
  | .request c _ _ => some c
  | _ => none

/-- The request that the engine takes in a step. -/
def taken? (s : Exchange) : Event → Option Container
  | .matching _ => s.requests.head?
  | _ => none

/-! ### The handlers -/

/-- The handler that a step runs, and where it leaves what it returns. -/
inductive Handled (s : Exchange) : Event → Exchange → Prop
  | request (c gw ids om out) (hw : s.waiting = none)
    (hr : handleRequest cfg A true gw ids s.om c = .ok (om, .done out)) :
    Handled s (.request c gw ids)
      { s with om, requests := s.requests ++ out.forwarded, history := s.history.forward out.forwarded }
  | query (c gw ids om o q) (hw : s.waiting = none)
    (hr : handleRequest cfg A true gw ids s.om c = .ok (om, .waiting o q)) :
    Handled s (.request c gw ids)
      { s with om, waiting := some (o, gw), requests := s.requests ++ [.fillCostQuery q] }
  | answer (o gw a answers ids om out) (hw : s.waiting = some (o, gw)) (ha : s.answers = a :: answers)
    (hr : completeRequest cfg A gw ids s.om o a = .ok (om, out)) :
    Handled s (.answer ids)
      { s with om, waiting := none, answers, requests := s.requests ++ out.forwarded,
               history := s.history.forward out.forwarded }
  | matching (c requests draw me sent) (hc : s.requests = c :: requests)
    (hr : s.me.processContainer A draw (fun _ => true) c = .ok (me, sent)) :
    Handled s (.matching draw)
      { s with me, requests, responses := s.responses ++ sent.responses, answers := s.answers ++ sent.answers }
  | response (c responses ids om out) (hw : s.waiting = none) (hc : s.responses = c :: responses)
    (hr : handleResponse cfg A ids s.om c = .ok (om, out)) :
    Handled s (.response ids) { s with om, responses, history := s.history.process c }

theorem step_iff {cfg : Config} {A : Arith} {s s' : Exchange} {e : Event} :
    s.step cfg A e = some s' ↔ Handled cfg A s e s' := by
  constructor
  · intro h
    cases e with
    | request c gw ids =>
      simp only [step] at h
      split at h
      · rename_i om out hw hr
        cases h
        exact .request c gw ids om out hw hr
      · rename_i om o q hw hr
        cases h
        exact .query c gw ids om o q hw hr
      · cases h
    | answer ids =>
      simp only [step] at h
      split at h
      · rename_i o gw a answers hw ha
        split at h
        · rename_i om out hr
          cases h
          exact .answer o gw a answers ids om out hw ha hr
        · cases h
      · cases h
    | matching draw =>
      simp only [step] at h
      split at h
      · rename_i c requests hc
        split at h
        · rename_i me sent hr
          cases h
          exact .matching c requests draw me sent hc hr
        · cases h
      · cases h
    | response ids =>
      simp only [step] at h
      split at h
      · rename_i c responses hw hc
        split at h
        · rename_i om out hr
          cases h
          exact .response c responses ids om out hw hc hr
        · cases h
      · cases h
  · intro h
    cases h with
    | request c gw ids om out hw hr => simp only [step, hw, hr]
    | query c gw ids om o q hw hr => simp only [step, hw, hr]
    | answer o gw a answers ids om out hw ha hr => simp only [step, hw, ha, hr]
    | matching c requests draw me sent hc hr => simp only [step, hc, hr]
    | response c responses ids om out hw hc hr => simp only [step, hw, hc, hr]

/-- A step in which the order manager processes a response. -/
theorem response_of_step {cfg : Config} {A : Arith} {s s' : Exchange} {ids : Nat → String}
    (h : s.step cfg A (.response ids) = some s') :
    ∃ c responses om out, s.responses = c :: responses ∧ handleResponse cfg A ids s.om c = .ok (om, out) ∧
      s' = { s with om, responses, history := s.history.process c } := by
  cases step_iff.1 h with
  | response c responses ids om out hw hc hr => exact ⟨c, responses, om, out, hc, hr, rfl⟩

/-! ### What a step can do -/

/-- The id that the next new order gets. -/
def nextId (s : Exchange) : Int := A.int (s.om.latestAssignedOrderId + 1)

/-- The counter moves. -/
def tick (s : Exchange) : Exchange := { s with om := { s.om with latestAssignedOrderId := s.nextId A } }

/-- A new order is entered in the maps of the order manager. -/
def register (s : Exchange) (o : NewOrderSingle) (userId gw : Int) : Exchange :=
  let key := transformedClOrdId A o.clOrdId userId
  { s with om := (s.tick A).om.register (s.nextId A) key (.ofNewOrder (o.assigned (s.nextId A)) gw) }

/-- An order is forwarded after its reservation was taken. -/
def accept (s : Exchange) (o : NewOrderSingle) (bc : BalanceChecker) : Exchange :=
  { s with om := { s.om with balanceChecker := bc }, requests := s.requests ++ [.newOrderSingle o],
           history := { s.history with accepted := s.history.accepted ++ [o] } }

/-- A new order may be entered: its user is known and its packed key is free. -/
structure Registers (s : Exchange) (o : NewOrderSingle) (userId : Int) : Prop where
  idle : s.waiting = none
  shaped : GatewayShaped (.newOrderSingle o)
  user : cfg.usernameUserIdMap o.senderCompId = some userId
  key_free : s.om.orderIdMap.right (transformedClOrdId A o.clOrdId userId) = none

inductive Move (s : Exchange) : Event → Exchange → Prop
  /-- A new order is refused before it is entered. -/
  | refused (o gw ids) (hw : s.waiting = none) : Move s (.request (.newOrderSingle o) gw ids) (s.tick A)
  /-- A new order is entered, and refused by validation. -/
  | rejected (o gw ids userId) (h : s.Registers cfg A o userId) :
    Move s (.request (.newOrderSingle o) gw ids) (s.register A o userId gw)
  /-- A new order is entered and forwarded. -/
  | forwarded (o gw ids userId bc) (h : s.Registers cfg A o userId) (hm : ¬ (o.ordType = .market ∧ o.side = .bid))
    (hv : Validated cfg A s.om.balanceChecker none (o.assigned (s.nextId A)) bc) :
    Move s (.request (.newOrderSingle o) gw ids) ((s.register A o userId gw).accept (o.assigned (s.nextId A)) bc)
  /-- A market bid is entered and its cost is asked for. -/
  | queried (o gw ids userId) (h : s.Registers cfg A o userId) (htype : o.ordType = .market) (hside : o.side = .bid) :
    Move s (.request (.newOrderSingle o) gw ids)
      { s.register A o userId gw with
        waiting := some (o.assigned (s.nextId A), gw)
        requests := s.requests ++ [.fillCostQuery ⟨o.symbol, o.orderQty, .ask⟩] }
  /-- A cancellation is refused. -/
  | cancelRefused (c gw ids) (hw : s.waiting = none) : Move s (.request (.cancelOrderRequest c) gw ids) s
  /-- A cancellation is forwarded. -/
  | cancelForwarded (c gw ids id) (hw : s.waiting = none) (hid : (preprocessedCancel cfg A s.om c).orderId = some id)
    (hinfo : s.om.orderInfoMap id ≠ none) :
    Move s (.request (.cancelOrderRequest c) gw ids)
      { s with requests := s.requests ++ [.cancelOrderRequest (preprocessedCancel cfg A s.om c)] }
  /-- A market bid is refused after the answer to its query. -/
  | answerRefused (o gw cost answers ids) (hw : s.waiting = some (o, gw))
    (ha : s.answers = .fillCostResponse ⟨cost⟩ :: answers) : Move s (.answer ids) { s with waiting := none, answers }
  /-- A market bid is forwarded after the answer to its query. -/
  | answerAccepted (o gw cost answers ids bc) (hw : s.waiting = some (o, gw))
    (ha : s.answers = .fillCostResponse ⟨cost⟩ :: answers) (hv : Validated cfg A s.om.balanceChecker cost o bc) :
    Move s (.answer ids) (accept { s with waiting := none, answers } o bc)
  /-- A new order is matched. -/
  | matched (o id b b' requests draw) (hr : s.requests = .newOrderSingle o :: requests) (hid : o.orderId = some id)
    (hb : s.me.limitOrderBooks o.symbol = some b) (hfree : b.orderIdMap id = none) (ht : (o.taker id).Ok)
    (hq : 0 < o.orderQty) (hm : b.Matched (o.taker id) o.orderQty b')
    (hok : (s.me.setBook o.symbol b').Ok cfg.activeSymbols) :
    Move s (.matching draw)
      { s with
        me := s.me.setBook o.symbol b'
        requests
        responses := s.responses ++
          (fillTrades draw o.symbol (o.taker id) (b.fills (o.taker id) o.orderQty)).map .trade }
  /-- A resting order is cancelled. -/
  | cancelled (c id b b' requests draw) (hr : s.requests = .cancelOrderRequest c :: requests)
    (hid : c.orderId = some id) (hb : s.me.limitOrderBooks c.symbol = some b) (hix : b.orderIdMap id ≠ none)
    (hc : b.Cancelled id b')
    (hok : (s.me.setBook c.symbol b').Ok cfg.activeSymbols) :
    Move s (.matching draw)
      { s with me := s.me.setBook c.symbol b', requests
               responses := s.responses ++ [.cancelOrderResponse ⟨id, c.clOrdId, true⟩] }
  /-- There is nothing to cancel. -/
  | cancelMissed (c id requests draw) (hr : s.requests = .cancelOrderRequest c :: requests)
    (hid : c.orderId = some id) : Move s (.matching draw)
      { s with requests, responses := s.responses ++ [.cancelOrderResponse ⟨id, c.clOrdId, false⟩] }
  /-- A query is answered. -/
  | quoted (q b cost requests draw) (hr : s.requests = .fillCostQuery q :: requests)
    (hb : s.me.limitOrderBooks q.symbol = some b) (hcost : b.getFillCost A q.quantity q.side = .ok cost) :
    Move s (.matching draw) { s with requests, answers := s.answers ++ [.fillCostResponse ⟨cost⟩] }
  /-- The order manager processes a trade. -/
  | settled (t responses ids om) (hw : s.waiting = none) (hr : s.responses = .trade t :: responses)
    (h : updateInternalData A s.om (.trade t) = .ok om) :
    Move s (.response ids)
      { s with om, responses, history := s.history.process (.trade t) }
  /-- The order manager processes a successful cancellation. -/
  | confirmed (id clOrdId responses ids om) (hw : s.waiting = none)
    (hr : s.responses = .cancelOrderResponse ⟨id, clOrdId, true⟩ :: responses)
    (h : updateInternalData A s.om (.cancelOrderResponse ⟨id, clOrdId, true⟩) = .ok om) :
    Move s (.response ids)
      { s with om, responses, history := s.history.process (.cancelOrderResponse ⟨id, clOrdId, true⟩) }
  /-- The order manager processes a cancellation that failed. -/
  | cancelFailed (id clOrdId responses ids) (hw : s.waiting = none)
    (hr : s.responses = .cancelOrderResponse ⟨id, clOrdId, false⟩ :: responses) :
    Move s (.response ids)
      { s with responses, history := s.history.process (.cancelOrderResponse ⟨id, clOrdId, false⟩) }

variable {cfg A}

/-! One lemma for each process; the lemmas about the two services say what a handler that returned has done. -/

section moves

variable {s : Exchange} {om : OrderManager}

private theorem move_of_request {c : Container} {gw : Int} {ids : Nat → String} {out : Output}
    (hfed : Fed (.request c gw ids)) (hw : s.waiting = none)
    (hr : handleRequest cfg A true gw ids s.om c = .ok (om, .done out)) :
    Move cfg A s (.request c gw ids)
      { s with om, requests := s.requests ++ out.forwarded, history := s.history.forward out.forwarded } := by
  cases c with
  | newOrderSingle o =>
    rcases handleRequest_newOrder hr with ⟨-, rfl, _, hout, hfw⟩ | ⟨userId, hu, hk, hrest⟩
    · cases hout
      rw [hfw, List.append_nil, History.forward, List.filterMap_nil, List.append_nil]
      exact .refused o gw ids hw
    · have hreg : Registers cfg A s o userId := ⟨hw, hfed, hu, hk⟩
      rcases hrest with ⟨rfl, _, hout, hfw⟩ | ⟨hm, bc, _, hv, rfl, hout, hfw⟩ | ⟨-, -, -, -, hout⟩
      · cases hout
        rw [hfw, List.append_nil, History.forward, List.filterMap_nil, List.append_nil]
        exact .rejected o gw ids userId hreg
      · cases hout
        rw [hfw]
        exact .forwarded o gw ids userId bc hreg hm hv
      · cases hout
  | cancelOrderRequest c =>
    obtain ⟨rfl, _, hout, hfw | ⟨id, hid, hinfo, hfw⟩⟩ := handleRequest_cancel hr
    · cases hout
      rw [hfw, List.append_nil, History.forward, List.filterMap_nil, List.append_nil]
      exact .cancelRefused c gw ids hw
    · cases hout
      rw [hfw]
      simp only [History.forward, Container.newOrder?, List.filterMap_cons, List.filterMap_nil, List.append_nil]
      exact .cancelForwarded c gw ids id hw hid hinfo
  | _ => cases hr

private theorem move_of_query {c : Container} {gw : Int} {ids : Nat → String} {o : NewOrderSingle}
    {q : FillCostQuery} (hfed : Fed (.request c gw ids)) (hw : s.waiting = none)
    (hr : handleRequest cfg A true gw ids s.om c = .ok (om, .waiting o q)) :
    Move cfg A s (.request c gw ids)
      { s with om, waiting := some (o, gw), requests := s.requests ++ [.fillCostQuery q] } := by
  cases c with
  | newOrderSingle o =>
    rcases handleRequest_newOrder hr with ⟨-, -, _, hout, -⟩ | ⟨userId, hu, hk, hrest⟩
    · cases hout
    · rcases hrest with ⟨-, _, hout, -⟩ | ⟨-, -, _, -, -, hout, -⟩ | ⟨htype, hside, -, rfl, hout⟩
      · cases hout
      · cases hout
      · cases hout
        exact .queried o gw ids userId ⟨hw, hfed, hu, hk⟩ htype hside
  | cancelOrderRequest c =>
    obtain ⟨-, _, hout, -⟩ := handleRequest_cancel hr
    cases hout
  | _ => cases hr

private theorem move_of_answer {o : NewOrderSingle} {gw : Int} {a : Container} {answers : List Container}
    {ids : Nat → String} {out : Output} (hw : s.waiting = some (o, gw)) (ha : s.answers = a :: answers)
    (hr : completeRequest cfg A gw ids s.om o a = .ok (om, out)) :
    Move cfg A s (.answer ids)
      { s with om, waiting := none, answers, requests := s.requests ++ out.forwarded,
               history := s.history.forward out.forwarded } := by
  obtain ⟨cost, rfl, ⟨rfl, hfw⟩ | ⟨bc, hv, rfl, hfw⟩⟩ := completeRequest_ok hr
  · rw [hfw, List.append_nil, History.forward, List.filterMap_nil, List.append_nil]
    exact .answerRefused o gw cost answers ids hw ha
  · rw [hfw]
    exact .answerAccepted o gw cost answers ids bc hw ha hv

private theorem move_of_matching {c : Container} {requests : List Container} {draw : Nat → Stamp}
    {me : MatchingEngine} {sent : Sent} (hme : s.me.Ok cfg.activeSymbols)
    (hprice : ∀ o, .newOrderSingle o ∈ s.requests → o.enginePrice ≤ marketBidOrderPrice)
    (hreq : ∀ c ∈ s.requests, (∃ o, c = .newOrderSingle o) ∨ (∃ r, c = .cancelOrderRequest r) ∨
      ∃ q, c = .fillCostQuery q) (hc : s.requests = c :: requests)
    (hr : s.me.processContainer A draw (fun _ => true) c = .ok (me, sent)) :
    Move cfg A s (.matching draw)
      { s with
        me, requests, responses := s.responses ++ sent.responses, answers := s.answers ++ sent.answers } := by
  have hmem : c ∈ s.requests := hc ▸ List.mem_cons_self
  rcases hreq c hmem with ⟨o, rfl⟩ | ⟨r, rfl⟩ | ⟨q, rfl⟩
  · obtain ⟨id, b, b', hid, hb, hfree, ht, hq, hm, rfl, hok, rfl⟩ :=
      MatchingEngine.newOrderHandler_ok hme (hprice o hmem) hr
    rw [List.append_nil]
    exact .matched o id b b' requests draw hc hid hb hfree ht hq hm hok
  · obtain ⟨id, b, hid, hb, ⟨-, rfl, rfl⟩ | ⟨b', hix, hcancel, rfl, hok, rfl⟩⟩ :=
      MatchingEngine.cancelOrderHandler_ok hme hr
    · rw [List.append_nil]
      exact .cancelMissed r id requests draw hc hid
    · rw [List.append_nil]
      exact .cancelled r id b b' requests draw hc hid hb hix hcancel hok
  · obtain ⟨b, cost, hb, hcost, rfl, rfl⟩ := MatchingEngine.fillCostQueryHandler_ok hr
    rw [List.append_nil]
    exact .quoted q b cost requests draw hc hb hcost

private theorem move_of_response {c : Container} {responses : List Container} {ids : Nat → String} {out : Output}
    (hw : s.waiting = none) (hc : s.responses = c :: responses)
    (hr : handleResponse cfg A ids s.om c = .ok (om, out)) :
    Move cfg A s (.response ids) { s with om, responses, history := s.history.process c } := by
  have hdata := (handleResponse_eq_ok_iff.1 hr).1
  cases c with
  | trade t => exact .settled t responses ids om hw hc hdata
  | cancelOrderResponse r =>
    obtain ⟨id, clOrdId, success⟩ := r
    cases success with
    | true => exact .confirmed id clOrdId responses ids om hw hc hdata
    | false =>
      cases hdata
      exact .cancelFailed id clOrdId responses ids hw hc
  | _ => cases hdata

end moves

/-- A step is a move. -/
theorem move_of_step {s s' : Exchange} {e : Event} (hme : s.me.Ok cfg.activeSymbols) (hfed : Fed e)
    (hprice : ∀ o, .newOrderSingle o ∈ s.requests → o.enginePrice ≤ marketBidOrderPrice)
    (hreq : ∀ c ∈ s.requests, (∃ o, c = .newOrderSingle o) ∨ (∃ r, c = .cancelOrderRequest r) ∨
      ∃ q, c = .fillCostQuery q) (h : s.step cfg A e = some s') : Move cfg A s e s' := by
  cases step_iff.1 h with
  | request c gw ids om out hw hr => exact move_of_request hfed hw hr
  | query c gw ids om o q hw hr => exact move_of_query hfed hw hr
  | answer o gw a answers ids om out hw ha hr => exact move_of_answer hw ha hr
  | matching c requests draw me sent hc hr => exact move_of_matching hme hprice hreq hc hr
  | response c responses ids om out hw hc hr => exact move_of_response hw hc hr

end Exchange

end Elsa
