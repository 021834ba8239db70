import Elsa.Engine.Conservation
import Elsa.Engine.Outbox
import Elsa.System.Agreement

/-!
# Refunds when sends fail

The exchange in which the sends of the engine may fail, with the quantities that cancellations took out of the
books.  A state is seen as one of the loss-free exchange (`asSent`): the trades that wait and the answers that were
lost stand at the end of the responses.  A step then is a step of the loss-free exchange after which some responses
change places.  Nothing changes for an order as long as its closing response does not move before one of its trades
(`Agrees.swap`), which is what `Flushed` demands of the engine.

In such runs the open quantity that the order manager gives back for a cancelled order is the quantity that the
cancellation took out of the book (`Tracks.refunds`).
-/

namespace Elsa

open Base LimitOrderBook

namespace MatchingEngine

/-- What a message takes out of a book by a cancellation. -/
def removes (me : MatchingEngine) : Container → List (Int × Int)
  | .cancelOrderRequest c =>
    match c.orderId, me.limitOrderBooks c.symbol with
    | some id, some b => if b.orderIdExists id then [(id, b.restingQuantity id)] else []
    | _, _ => []
  | _ => []

end MatchingEngine

/-- An exchange, and the quantities that cancellations took out of its books. -/
structure FlakyExchange where
  exchange : Exchange
  removed : List (Int × Int)

namespace FlakyExchange

variable (cfg : Config) (A : Arith)

def start (balances : BalanceChecker) : FlakyExchange := ⟨.start cfg balances, []⟩

/-- A step of the exchange, with what the sends of the engine return. -/
def step (s : FlakyExchange) (e : Event × (Nat → Bool)) : Option FlakyExchange :=
  match e.1 with
  | .matching draw =>
    match s.exchange.requests with
    | c :: requests =>
      match s.exchange.me.processContainer A draw e.2 c with
      | .ok (me, sent) =>
        some ⟨{ s.exchange with me, requests, responses := s.exchange.responses ++ sent.responses
                                answers := s.exchange.answers ++ sent.answers },
          s.removed ++ s.exchange.me.removes c⟩
      | .error _ => none
    | [] => none
  | e => (s.exchange.step cfg A e).map fun x => { s with exchange := x }

/-- The message that the engine takes in a step. -/
def delivery? (s : FlakyExchange) (e : Event × (Nat → Bool)) : Option Delivery :=
  match e.1 with
  | .matching draw => s.exchange.requests.head?.map fun c => ⟨c, draw, e.2⟩
  | _ => none

/-- The requests have the shape that the gateway gives them, the counter of order ids stays in range, and no trade
of an order waits when its cancellation is confirmed. -/
def Allows (s : FlakyExchange) (e : Event × (Nat → Bool)) : Prop :=
  Exchange.Fed e.1 ∧ s.exchange.CounterFits A e.1 ∧ ∀ d ∈ s.delivery? e, s.exchange.me.Flushed d

instance (s : FlakyExchange) (e : Event × (Nat → Bool)) : Decidable (s.Allows A e) :=
  inferInstanceAs (Decidable (_ ∧ _ ∧ ∀ d ∈ s.delivery? e, s.exchange.me.Flushed d))

/-- What the order manager gives back for a cancellation that it is about to process is what left the book. -/
def RefundsRemoved (s : FlakyExchange) : Prop :=
  ∀ id clOrdId responses, s.exchange.responses = .cancelOrderResponse ⟨id, clOrdId, true⟩ :: responses →
    ∃ info quantity, s.exchange.om.orderInfoMap id = some info ∧ (∀ q, (id, q) ∈ s.removed ↔ q = quantity) ∧
      info.leavesQty = quantity ∧
      ∀ om, updateInternalData A s.exchange.om (.cancelOrderResponse ⟨id, clOrdId, true⟩) = .ok om →
        ∃ price, info.price = some price ∧ s.exchange.om.balanceChecker.updateBalance A info.senderCompId
          (match info.side with | .bid => usdSymbol | .ask => info.symbol)
          (match info.side with | .bid => A.int (price * quantity) | .ask => quantity) = .ok om.balanceChecker

end FlakyExchange

/-! ### Responses that change places -/

/-- Only the order between a closing response and the responses about its order matters. -/
theorem Placed.perm {cfg : Config} {accepted : List NewOrderSingle} {requests stream stream' : List Container}
    {me : MatchingEngine} (h : Placed cfg accepted requests me stream) (hp : stream.Perm stream')
    (hc : stream'.Pairwise fun c d => ∀ id, c.closed? = some id → ¬ d.Touches id) :
    Placed cfg accepted requests me stream' := by
  have hlive : ∀ o, live requests me stream' o = live requests me stream o := by
    intro o
    have : amountOf stream' o.id = amountOf stream o.id := (hp.symm.map _).sum_eq
    rw [live, live, this]
  refine ⟨h.engine_ok, h.admitted, h.nodup, h.kinds, h.requested_nodup, h.requested_absent, h.resting,
    fun t ht => h.trades t (hp.mem_iff.2 ht), hc, fun c hm => h.closed c (hp.mem_iff.2 hm), fun o ho => ?_,
    fun o ho => ?_⟩
  · rw [hlive]
    exact h.live_le o ho
  · rw [hlive]
    refine (h.live_eq o ho).imp_right (Or.imp_left ?_)
    rintro ⟨c, hm, hcl⟩
    exact ⟨c, hp.mem_iff.1 hm, hcl⟩

theorem Exchange.Agrees.swap {cfg : Config} {s : Exchange} (h : s.Agrees cfg) {first second third : List Container}
    (hr : s.responses = first ++ second ++ third)
    (hc : ∀ c ∈ third, ∀ d ∈ second, ∀ id, c.closed? = some id → ¬ d.Touches id) (answers : List Container) :
    Agrees cfg { s with responses := first ++ third ++ second, answers } := by
  have hp : (first ++ second ++ third).Perm (first ++ third ++ second) := by
    rw [List.append_assoc, List.append_assoc]
    exact List.perm_append_comm.append_left first
  refine ⟨h.placed.perm ?_ ?_, h.counter, h.domain, h.range, h.recorded, h.waiting, h.cancels,
    fun c hm => h.answered c (hr ▸ hp.mem_iff.2 hm)⟩
  · show s.stream.Perm (s.history.processed ++ (first ++ third ++ second))
    rw [stream, hr]
    exact hp.append_left _
  · show (s.history.processed ++ (first ++ third ++ second)).Pairwise _
    have hclosing := h.placed.closing
    rw [stream, hr] at hclosing
    simp only [List.pairwise_append, List.mem_append] at hclosing ⊢
    obtain ⟨h1, ⟨⟨h2, h3, h4⟩, h5, h6⟩, h7⟩ := hclosing
    refine ⟨h1, ⟨⟨h2, h5, fun c hm d hd => h6 c (Or.inl hm) d hd⟩, h3, ?_⟩, ?_⟩
    · rintro c (hm | hm) d hd
      · exact h4 c hm d hd
      · exact hc c hm d hd
    · rintro c hm d ((hd | hd) | hd)
      · exact h7 c hm d (Or.inl (Or.inl hd))
      · exact h7 c hm d (Or.inr hd)
      · exact h7 c hm d (Or.inl (Or.inr hd))

/-! ### What was removed -/

/-- For each removal, the removed quantity is what the order had not traded, and a response closes the order. -/
structure Removals (accepted : List NewOrderSingle) (stream : List Container) (removed : List (Int × Int)) :
    Prop where
  nodup : (removed.map Prod.fst).Nodup
  complete : ∀ c ∈ stream, ∀ id, c.closed? = some id → id ∈ removed.map Prod.fst
  closed : ∀ p ∈ removed, ∃ c ∈ stream, c.closed? = some p.1
  account : ∀ p ∈ removed, ∃ o ∈ accepted, o.id = p.1 ∧ o.orderQty = amountOf stream p.1 + p.2

namespace Removals

variable {accepted accepted' : List NewOrderSingle} {stream stream' : List Container} {removed : List (Int × Int)}

theorem mono (h : Removals accepted stream removed) (hs : ∀ o ∈ accepted, o ∈ accepted') :
    Removals accepted' stream removed := by
  refine ⟨h.nodup, h.complete, h.closed, fun p hp => ?_⟩
  obtain ⟨o, ho, h1, h2⟩ := h.account p hp
  exact ⟨o, hs o ho, h1, h2⟩

theorem perm (h : Removals accepted stream removed) (hp : stream.Perm stream') :
    Removals accepted stream' removed := by
  refine ⟨h.nodup, fun c hc => h.complete c (hp.mem_iff.2 hc), fun p hm => ?_, fun p hm => ?_⟩
  · obtain ⟨c, hc, hcl⟩ := h.closed p hm
    exact ⟨c, hp.mem_iff.1 hc, hcl⟩
  · obtain ⟨o, ho, h1, h2⟩ := h.account p hm
    have : amountOf stream' p.1 = amountOf stream p.1 := (hp.symm.map _).sum_eq
    exact ⟨o, ho, h1, this ▸ h2⟩

/-- Responses that close no order, after which the closing ones are still the last about their orders. -/
private theorem extend (h : Removals accepted stream removed) {responses : List Container}
    (hc : (stream ++ responses).Pairwise fun c d => ∀ id, c.closed? = some id → ¬ d.Touches id)
    (hopen : ∀ c ∈ responses, c.closed? = none) : Removals accepted (stream ++ responses) removed := by
  refine ⟨h.nodup, fun c hm id hcl => ?_, fun p hp => ?_, fun p hp => ?_⟩
  · rcases List.mem_append.1 hm with hm | hm
    · exact h.complete c hm id hcl
    · rw [hopen c hm] at hcl
      cases hcl
  · obtain ⟨c, hm, hcl⟩ := h.closed p hp
    exact ⟨c, List.mem_append_left _ hm, hcl⟩
  · obtain ⟨c, hm, hcl⟩ := h.closed p hp
    obtain ⟨o, ho, h1, h2⟩ := h.account p hp
    have hzero : amountOf responses p.1 = 0 :=
      amountOf_eq_zero fun d hd => (List.pairwise_append.1 hc).2.2 c hm d hd p.1 hcl
    exact ⟨o, ho, h1, by rw [amountOf_append, hzero, Int.add_zero, h2]⟩

/-- The cancellation of an order of which `quantity` rests. -/
theorem cancel (h : Removals accepted stream removed) {o : NewOrderSingle} (ho : o ∈ accepted)
    {quantity clOrdId : Int} (hq : o.orderQty = amountOf stream o.id + quantity)
    (hnew : ∀ c ∈ stream, c.closed? ≠ some o.id) :
    Removals accepted (stream ++ [.cancelOrderResponse ⟨o.id, clOrdId, true⟩]) (removed ++ [(o.id, quantity)]) := by
  have hsame : ∀ id, amountOf (stream ++ [.cancelOrderResponse ⟨o.id, clOrdId, true⟩]) id = amountOf stream id := by
    intro id
    rw [amountOf_append, amountOf_cons, amountOf_nil, Int.add_zero]
    exact Int.add_zero _
  refine ⟨?_, fun c hm id hcl => ?_, fun p hp => ?_, fun p hp => ?_⟩
  · refine nodup_map_concat h.nodup fun hmem => ?_
    obtain ⟨p, hp, hid⟩ := List.mem_map.1 hmem
    obtain ⟨c, hc, hcl⟩ := h.closed p hp
    exact hnew c hc (hcl.trans (congrArg some hid))
  · rw [List.map_append, List.mem_append]
    rcases List.mem_append.1 hm with hm | hm
    · exact Or.inl (h.complete c hm id hcl)
    · rw [List.mem_singleton.1 hm] at hcl
      cases hcl
      exact Or.inr (by simp)
  · rcases List.mem_append.1 hp with hp | hp
    · obtain ⟨c, hc, hcl⟩ := h.closed p hp
      exact ⟨c, List.mem_append_left _ hc, hcl⟩
    · rw [List.mem_singleton.1 hp]
      exact ⟨_, List.mem_append_right _ (List.mem_singleton.2 rfl), rfl⟩
  · rw [hsame]
    rcases List.mem_append.1 hp with hp | hp
    · exact h.account p hp
    · rw [List.mem_singleton.1 hp]
      exact ⟨o, ho, rfl, hq⟩

end Removals

/-! ### The loss-free exchange behind a state -/

/-- The engine without the trades that wait. -/
def MatchingEngine.drained (me : MatchingEngine) : MatchingEngine := { me with tradeEvents := [] }

/-- The trades that wait, as responses. -/
def MatchingEngine.waiting (me : MatchingEngine) : List Container := me.tradeEvents.map fun t => .trade t.toContainer

/-- The answers to cancellations that some messages would get if every send succeeded. -/
def MatchingEngine.cancelAnswer (me : MatchingEngine) : Container → List Container
  | .cancelOrderRequest c =>
    match c.orderId, me.limitOrderBooks c.symbol with
    | some id, some b => [.cancelOrderResponse ⟨id, c.clOrdId, b.orderIdExists id⟩]
    | _, _ => []
  | _ => []

/-- The loss-free exchange behind a state: what waits and what was lost comes last. -/
def Exchange.asSent (x : Exchange) (lost : List Container) : Exchange :=
  { x with me := x.me.drained, responses := x.responses ++ x.me.waiting ++ lost }

private theorem MatchingEngine.processContainer_drained {A : Arith} {draw : Nat → Stamp} {sendOk : Nat → Bool}
    {me me' : MatchingEngine} {c : Container} {out : Sent}
    (h : me.processContainer A draw sendOk c = .ok (me', out)) :
    ∃ answers, me.drained.processContainer A draw (fun _ => true) c =
      .ok (me'.drained, ⟨(me.tradesMade draw c).map (fun t => .trade t.toContainer) ++ me.cancelAnswer c,
        answers⟩) := by
  cases c with
  | newOrderSingle o =>
    simp only [processContainer, newOrderHandler, bind_eq_ok, require_eq_ok, orFail_eq_ok] at h
    obtain ⟨-, -, b, hb, id, hid, ⟨b', ts⟩, hadd, h⟩ := h
    cases h
    refine ⟨[], ?_⟩
    have hmade : me.tradesMade draw (.newOrderSingle o) = ts := by simp only [tradesMade, hb, hid, hadd]
    have hb' : me.drained.limitOrderBooks o.symbol = some b := hb
    simp only [processContainer, newOrderHandler, hb', hid, orFail_some, ok_bind, hadd, hmade]
    rw [show me.drained.tradeEvents ++ ts = ts from rfl, drainTrades_all]
    simp only [cancelAnswer, List.append_nil]
    rfl
  | cancelOrderRequest r =>
    simp only [processContainer, cancelOrderHandler, bind_eq_ok, require_eq_ok, orFail_eq_ok] at h
    obtain ⟨-, -, b, hb, id, hid, h⟩ := h
    refine ⟨[], ?_⟩
    have hb' : me.drained.limitOrderBooks r.symbol = some b := hb
    simp only [processContainer, cancelOrderHandler, hb', hid, orFail_some, ok_bind, tradesMade,
      cancelAnswer, hb]
    split at h
    · rename_i hex
      rw [if_pos hex]
      cases hcan : b.cancelOrder id with
      | error f => rw [hcan] at h; cases h
      | ok b' => rw [hcan] at h; cases h; rfl
    · rename_i hex
      rw [if_neg hex]
      cases h
      rfl
  | fillCostQuery q =>
    simp only [processContainer, fillCostQueryHandler, bind_eq_ok, orFail_eq_ok] at h
    obtain ⟨b, hb, cost, hcost, h⟩ := h
    cases h
    refine ⟨[.fillCostResponse ⟨cost⟩], ?_⟩
    have hb' : me.drained.limitOrderBooks q.symbol = some b := hb
    simp only [processContainer, fillCostQueryHandler, hb', orFail_some, ok_bind, hcost]
    rfl
  | executionReport r => cases h; exact ⟨[], rfl⟩
  | fillCostResponse r => cases h; exact ⟨[], rfl⟩
  | trade t => cases h; exact ⟨[], rfl⟩
  | cancelOrderResponse r => cases h; exact ⟨[], rfl⟩

namespace Exchange

variable {cfg : Config} {A : Arith} {x x' : Exchange} {e : Event}

private theorem Agrees.setAnswers (h : x.Agrees cfg) (answers : List Container) : Agrees cfg { x with answers } :=
  ⟨h.placed, h.counter, h.domain, h.range, h.recorded, h.waiting, h.cancels, h.answered⟩

/-- The order manager takes the same steps on the exchange behind a state. -/
private theorem step_asSent (he : ∀ draw, e ≠ .matching draw) (h : x.step cfg A e = some x') (lost : List Container) :
    (x.asSent lost).step cfg A e = some (x'.asSent lost) := by
  cases step_iff.1 h with
  | request c gw ids om out hw hr => exact step_iff.2 (.request c gw ids om out hw hr)
  | query c gw ids om o q hw hr => exact step_iff.2 (.query c gw ids om o q hw hr)
  | answer o gw a answers ids om out hw ha hr => exact step_iff.2 (.answer o gw a answers ids om out hw ha hr)
  | matching c requests draw => exact absurd rfl (he draw)
  | response c responses ids om out hw hc hr =>
    refine step_iff.2 (.response c (responses ++ x.me.waiting ++ lost) ids om out hw ?_ hr)
    exact congrArg (· ++ x.me.waiting ++ lost) hc

end Exchange

namespace FlakyExchange

variable {cfg : Config} {A : Arith} {s s' : FlakyExchange} {e : Event × (Nat → Bool)}

/-- The invariant of the runs: the exchange behind the state agrees, only answers were lost, and the removals are
right. -/
def Tracks (cfg : Config) (s : FlakyExchange) : Prop :=
  ∃ lost, (s.exchange.asSent lost).Agrees cfg ∧ (∀ c ∈ lost, ∀ t, c ≠ .trade t) ∧
    Removals s.exchange.history.accepted (s.exchange.asSent lost).stream s.removed

private theorem start_tracks (balances : BalanceChecker) : (start cfg balances).Tracks cfg := by
  refine ⟨[], Exchange.start_agrees balances, fun c hc => ?_, List.nodup_nil, fun c hc => ?_, fun p hp => ?_,
    fun p hp => ?_⟩
  · cases hc
  · cases hc
  · cases hp
  · cases hp

section matching

variable {x : Exchange} {lost requests : List Container} {c : Container} {me' : MatchingEngine} {out : Sent}
  {draw : Nat → Stamp} {sendOk : Nat → Bool} {answers : List Container}

/-- The step of the loss-free exchange behind a step of the engine. -/
def fullStep (x : Exchange) (lost requests : List Container) (c : Container) (draw : Nat → Stamp)
    (me' : MatchingEngine) (answers : List Container) : Exchange :=
  { x.asSent lost with
    me := me'.drained
    requests
    answers
    responses := x.responses ++ x.me.waiting ++ lost ++
      ((x.me.tradesMade draw c).map (fun t => .trade t.toContainer) ++ x.me.cancelAnswer c) }

private theorem fullStep_agrees (ha : (x.asSent lost).Agrees cfg) (hr : x.requests = c :: requests)
    (hp : x.me.processContainer A draw sendOk c = .ok (me', out)) :
    (fullStep x lost requests c draw me' answers).Agrees cfg := by
  obtain ⟨quotes, hfull⟩ := MatchingEngine.processContainer_drained hp
  have hs : (x.asSent lost).step cfg A (.matching draw) =
      some (fullStep x lost requests c draw me' (x.answers ++ quotes)) := by
    have hr' : (x.asSent lost).requests = c :: requests := hr
    have hfull' : (x.asSent lost).me.processContainer A draw (fun _ => true) c = _ := hfull
    simp only [Exchange.step, hr', hfull']
    rfl
  have hm := ha.move_of_step (e := .matching draw) trivial hs
  exact (ha.move (e := .matching draw) trivial hm).setAnswers answers

/-- The order that a cancellation takes out of a book. -/
private theorem removals_cancel (ha : (x.asSent lost).Agrees cfg) {b : LimitOrderBook} {symbol : String}
    {id clOrdId : Int} {removed : List (Int × Int)}
    (hrem : Removals x.history.accepted (x.asSent lost).stream removed) (hb : x.me.limitOrderBooks symbol = some b)
    (hex : b.orderIdExists id = true) :
    Removals x.history.accepted ((x.asSent lost).stream ++ [.cancelOrderResponse ⟨id, clOrdId, true⟩])
      (removed ++ [(id, b.restingQuantity id)]) := by
  have hb' : (x.asSent lost).me.limitOrderBooks symbol = some b := hb
  have hbok := (ha.placed.engine_ok.book_ok symbol b hb').1
  obtain ⟨a, hix⟩ := Option.isSome_iff_exists.1 hex
  obtain ⟨n, hn, rfl, rfl⟩ := hbok.exists_node hix
  obtain ⟨o, ho, hro⟩ := ha.placed.resting symbol b hb' n hn
  have hq : b.restingQuantity n.order.orderId = n.order.quantity := by
    rw [restingQuantity, hix, Option.bind_some, hbok.deref_eq hn]
  have hqty := ha.resting_qty hb' hn ho hro
  rw [hq, ← hro.id_eq]
  refine hrem.cancel ho hqty fun c hc hcl => ?_
  rw [hro.id_eq] at hcl
  have habs := (ha.placed.closed c hc _ hcl).2.1 symbol b hb'
  rw [hix] at habs
  cases habs

private theorem fullStep_removals (ha : (x.asSent lost).Agrees cfg) (hr : x.requests = c :: requests)
    {removed : List (Int × Int)} (hrem : Removals x.history.accepted (x.asSent lost).stream removed)
    (hp : x.me.processContainer A draw sendOk c = .ok (me', out)) :
    Removals x.history.accepted (fullStep x lost requests c draw me' answers).stream (removed ++ x.me.removes c) := by
  have hagrees : (fullStep x lost requests c draw me' answers).Agrees cfg := fullStep_agrees ha hr hp
  have hclosing := hagrees.placed.closing
  have hstream : (fullStep x lost requests c draw me' answers).stream = (x.asSent lost).stream ++
      ((x.me.tradesMade draw c).map (fun t => .trade t.toContainer) ++ x.me.cancelAnswer c) := by
    simp only [Exchange.stream, fullStep, Exchange.asSent, List.append_assoc]
  rw [hstream] at hclosing ⊢
  -- only the confirmation of a cancellation closes an order
  by_cases hcan : ∃ r, c = .cancelOrderRequest r
  · obtain ⟨r, rfl⟩ := hcan
    obtain ⟨-, id, b, hid, hb, -⟩ := MatchingEngine.processContainer_cancel (d := ⟨_, draw, sendOk⟩) rfl hp
    simp only [MatchingEngine.tradesMade, MatchingEngine.cancelAnswer, MatchingEngine.removes, hid, hb, List.map_nil,
      List.nil_append] at hclosing ⊢
    cases hex : b.orderIdExists id with
    | true => exact removals_cancel ha hrem hb hex
    | false =>
      rw [hex] at hclosing
      simp only [Bool.false_eq_true, if_false, List.append_nil]
      refine hrem.extend hclosing fun d hd => ?_
      rw [List.mem_singleton.1 hd]
      rfl
  · have hnone : x.me.cancelAnswer c = [] ∧ x.me.removes c = [] := by
      cases c with
      | cancelOrderRequest r => exact absurd ⟨r, rfl⟩ hcan
      | _ => exact ⟨rfl, rfl⟩
    rw [hnone.1, List.append_nil] at hclosing ⊢
    rw [hnone.2, List.append_nil]
    refine hrem.extend hclosing fun d hd => ?_
    obtain ⟨t, -, rfl⟩ := List.mem_map.1 hd
    rfl

/-- The state after a step of the engine. -/
def engineStep (x : Exchange) (requests : List Container) (me' : MatchingEngine) (out : Sent) : Exchange :=
  { x with me := me', requests, responses := x.responses ++ out.responses, answers := x.answers ++ out.answers }

/-- A new order: its trades move before what was lost. -/
private theorem asSent_newOrder {o : NewOrderSingle} (hp : x.me.processContainer A draw sendOk (.newOrderSingle o) =
      .ok (me', out)) (hf :
      (fullStep x lost requests (.newOrderSingle o) draw me' (x.answers ++ out.answers)).Agrees cfg) :
    ((engineStep x requests me' out).asSent lost).Agrees cfg ∧
      (fullStep x lost requests (.newOrderSingle o) draw me' (x.answers ++ out.answers)).stream.Perm
        ((engineStep x requests me' out).asSent lost).stream := by
  obtain ⟨sent, hq, hout⟩ := MatchingEngine.processContainer_newOrder (d := ⟨_, draw, sendOk⟩) rfl hp
  have hq' := congrArg (List.map fun t : Trade => Container.trade t.toContainer) hq
  rw [List.map_append, List.map_append] at hq'
  have heq : (engineStep x requests me' out).asSent lost =
      { fullStep x lost requests (.newOrderSingle o) draw me' (x.answers ++ out.answers) with
        responses := x.responses ++ x.me.waiting ++
          (x.me.tradesMade draw (.newOrderSingle o)).map (fun t => .trade t.toContainer) ++ lost } := by
    simp only [engineStep, fullStep, Exchange.asSent, hout, MatchingEngine.waiting, List.append_assoc]
    rw [← List.append_assoc (sent.map _), ← hq', List.append_assoc]
  rw [heq]
  refine ⟨hf.swap (by simp [fullStep, MatchingEngine.cancelAnswer]) (fun c hc d _ id hcl => ?_) _, ?_⟩
  · obtain ⟨t, -, rfl⟩ := List.mem_map.1 hc
    cases hcl
  · simp only [Exchange.stream, fullStep, Exchange.asSent, MatchingEngine.cancelAnswer, List.append_nil,
      List.append_assoc]
    exact ((List.perm_append_comm.append_left _).append_left _).append_left _

/-- A cancellation whose answer is sent: it moves before what waits and what was lost. -/
private theorem asSent_cancel (ha : (x.asSent lost).Agrees cfg) (hlost : ∀ c ∈ lost, ∀ t, c ≠ .trade t)
    {r : CancelOrderRequest} (hp : x.me.processContainer A draw sendOk (.cancelOrderRequest r) = .ok (me', out))
    (hok : sendOk 0 = true) (hflush : x.me.Flushed ⟨.cancelOrderRequest r, draw, sendOk⟩)
    (hf : (fullStep x lost requests (.cancelOrderRequest r) draw me' (x.answers ++ out.answers)).Agrees cfg) :
    ((engineStep x requests me' out).asSent lost).Agrees cfg ∧
      (fullStep x lost requests (.cancelOrderRequest r) draw me' (x.answers ++ out.answers)).stream.Perm
        ((engineStep x requests me' out).asSent lost).stream := by
  obtain ⟨hq, id, b, hid, hb, hout⟩ := MatchingEngine.processContainer_cancel (d := ⟨_, draw, sendOk⟩) rfl hp
  simp only [hok, if_true] at hout
  have hanswer : x.me.cancelAnswer (.cancelOrderRequest r) =
      [.cancelOrderResponse ⟨id, r.clOrdId, b.orderIdExists id⟩] := by
    simp only [MatchingEngine.cancelAnswer, hid, hb]
  have heq : (engineStep x requests me' out).asSent lost =
      { fullStep x lost requests (.cancelOrderRequest r) draw me' (x.answers ++ out.answers) with
        responses := x.responses ++ [.cancelOrderResponse ⟨id, r.clOrdId, b.orderIdExists id⟩] ++
          (x.me.waiting ++ lost) } := by
    simp only [engineStep, fullStep, Exchange.asSent, hout, MatchingEngine.waiting, hq, List.append_assoc]
  have hresp : (fullStep x lost requests (.cancelOrderRequest r) draw me' (x.answers ++ out.answers)).responses =
      x.responses ++ (x.me.waiting ++ lost) ++ [.cancelOrderResponse ⟨id, r.clOrdId, b.orderIdExists id⟩] := by
    simp only [fullStep, MatchingEngine.tradesMade, hanswer, List.map_nil, List.nil_append, List.append_assoc]
  rw [heq]
  refine ⟨hf.swap hresp (fun c hc d hd id' hcl htouch => ?_) _, ?_⟩
  · -- the closed order rested, so nothing that was lost closes it, and none of its trades waits
    rw [List.mem_singleton.1 hc] at hcl
    cases hex : b.orderIdExists id with
    | false => rw [hex] at hcl; cases hcl
    | true =>
      rw [hex] at hcl
      cases hcl
      have hconf : x.me.confirms? ⟨.cancelOrderRequest r, draw, sendOk⟩ = some id := by
        simp [MatchingEngine.confirms?, hid, hb, hex, hok]
      rcases List.mem_append.1 hd with hd | hd
      · obtain ⟨t, ht, rfl⟩ := List.mem_map.1 hd
        rcases htouch with hcl | ⟨t', ht', htouch⟩
        · cases hcl
        · cases ht'
          exact hflush id hconf t ht htouch
      · rcases htouch with hcl | ⟨t', ht', -⟩
        · have habs := (ha.placed.closed d (by simp [Exchange.stream, Exchange.asSent, hd]) id hcl).2.1 r.symbol b hb
          rw [orderIdExists, habs] at hex
          cases hex
        · exact hlost d hd t' ht'
  · show (x.history.processed ++ _).Perm (x.history.processed ++ _)
    rw [hresp, List.append_assoc x.responses, List.append_assoc x.responses]
    exact ((List.perm_append_comm.append_left _).append_left _)

/-- The engine takes a message. -/
theorem Tracks.matching {removed : List (Int × Int)} (h : Tracks cfg ⟨x, removed⟩) (hr : x.requests = c :: requests)
    (hflush : x.me.Flushed ⟨c, draw, sendOk⟩) (hp : x.me.processContainer A draw sendOk c = .ok (me', out)) :
    Tracks cfg ⟨engineStep x requests me' out, removed ++ x.me.removes c⟩ := by
  obtain ⟨lost, ha, hlost, hrem⟩ := h
  have hf : (fullStep x lost requests c draw me' (x.answers ++ out.answers)).Agrees cfg := fullStep_agrees ha hr hp
  have hfrem : Removals x.history.accepted (fullStep x lost requests c draw me' (x.answers ++ out.answers)).stream
      (removed ++ x.me.removes c) := fullStep_removals ha hr hrem hp
  suffices hgoal : ∃ lost', ((engineStep x requests me' out).asSent lost').Agrees cfg ∧
      (∀ c ∈ lost', ∀ t, c ≠ .trade t) ∧
      (fullStep x lost requests c draw me' (x.answers ++ out.answers)).stream.Perm
        ((engineStep x requests me' out).asSent lost').stream by
    obtain ⟨lost', h1, h2, h3⟩ := hgoal
    exact ⟨lost', h1, h2, hfrem.perm h3⟩
  -- where nothing changes places the two states are the same
  have hsame : ∀ lost', (engineStep x requests me' out).asSent lost' =
      fullStep x lost requests c draw me' (x.answers ++ out.answers) → (∀ c ∈ lost', ∀ t, c ≠ .trade t) →
      ∃ lost', ((engineStep x requests me' out).asSent lost').Agrees cfg ∧ (∀ c ∈ lost', ∀ t, c ≠ .trade t) ∧
        (fullStep x lost requests c draw me' (x.answers ++ out.answers)).stream.Perm
          ((engineStep x requests me' out).asSent lost').stream := by
    intro lost' heq hl
    exact ⟨lost', heq ▸ hf, hl, heq ▸ List.Perm.refl _⟩
  by_cases h1 : ∃ o, c = .newOrderSingle o
  · obtain ⟨o, rfl⟩ := h1
    obtain ⟨h1, h2⟩ := asSent_newOrder hp hf
    exact ⟨lost, h1, hlost, h2⟩
  · by_cases h2 : ∃ r, c = .cancelOrderRequest r
    · obtain ⟨r, rfl⟩ := h2
      cases hok : sendOk 0 with
      | true =>
        obtain ⟨h1, h2⟩ := asSent_cancel ha hlost hp hok hflush hf
        exact ⟨lost, h1, hlost, h2⟩
      | false =>
        obtain ⟨hq, id, b, hid, hb, hout⟩ := MatchingEngine.processContainer_cancel (d := ⟨_, draw, sendOk⟩) rfl hp
        simp only [hok, Bool.false_eq_true, if_false] at hout
        refine hsame (lost ++ [.cancelOrderResponse ⟨id, r.clOrdId, b.orderIdExists id⟩]) ?_ fun d hd t => ?_
        · simp only [engineStep, fullStep, Exchange.asSent, hout, MatchingEngine.waiting, hq,
            MatchingEngine.tradesMade, MatchingEngine.cancelAnswer, hid, hb, List.map_nil, List.nil_append,
            List.append_nil, List.append_assoc]
        · rcases List.mem_append.1 hd with hd | hd
          · exact hlost d hd t
          · rw [List.mem_singleton.1 hd]
            intro heq
            cases heq
    · obtain ⟨hq, hout⟩ := MatchingEngine.processContainer_other (d := ⟨c, draw, sendOk⟩) (fun o ho => h1 ⟨o, ho⟩)
        (fun r hr => h2 ⟨r, hr⟩) hp
      have hnone : x.me.tradesMade draw c = [] ∧ x.me.cancelAnswer c = [] := by
        cases c with
        | newOrderSingle o => exact absurd ⟨o, rfl⟩ h1
        | cancelOrderRequest r => exact absurd ⟨r, rfl⟩ h2
        | _ => exact ⟨rfl, rfl⟩
      refine hsame lost ?_ hlost
      simp only [engineStep, fullStep, Exchange.asSent, hout, MatchingEngine.waiting, hq, hnone.1, hnone.2,
        List.map_nil, List.append_nil]

end matching

theorem Tracks.step (h : s.Tracks cfg) (hg : s.Allows A e) (hs : s.step cfg A e = some s') : s'.Tracks cfg := by
  obtain ⟨x, removed⟩ := s
  obtain ⟨ev, sendOk⟩ := e
  obtain ⟨hfed, hfit, hflush⟩ := hg
  by_cases hm : ∃ draw, ev = .matching draw
  · obtain ⟨draw, rfl⟩ := hm
    cases hr : x.requests with
    | nil => simp [FlakyExchange.step, hr] at hs
    | cons c requests =>
      cases hp : x.me.processContainer A draw sendOk c with
      | error f => simp [FlakyExchange.step, hr, hp] at hs
      | ok r =>
        simp only [FlakyExchange.step, hr, hp, Option.some.injEq] at hs
        subst hs
        exact h.matching hr (hflush _ (by simp [delivery?, hr])) hp
  · have he : ∀ draw, ev ≠ .matching draw := fun draw hd => hm ⟨draw, hd⟩
    have hstep : (x.step cfg A ev).map (fun y => (⟨y, removed⟩ : FlakyExchange)) = some s' := by
      cases ev with
      | matching draw => exact absurd rfl (he draw)
      | _ => exact hs
    obtain ⟨y, hy, rfl⟩ := Option.map_eq_some_iff.1 hstep
    obtain ⟨lost, ha, hlost, hrem⟩ := h
    have hmove := ha.move_of_step hfed (Exchange.step_asSent he hy lost)
    obtain ⟨hstream, hacc⟩ := hmove.stream_eq he
    exact ⟨lost, ha.move hfit hmove, hlost, hstream ▸ hrem.mono hacc⟩

/-- The order manager gives back what left the book. -/
theorem Tracks.refunds (h : s.Tracks cfg) : s.RefundsRemoved A := by
  obtain ⟨lost, ha, -, hrem⟩ := h
  intro id clOrdId responses hr
  have hhead : (s.exchange.asSent lost).responses =
      .cancelOrderResponse ⟨id, clOrdId, true⟩ :: (responses ++ s.exchange.me.waiting ++ lost) := by
    simp only [Exchange.asSent, hr, List.cons_append]
  have hmem := Exchange.Agrees.mem_stream hhead
  have hmem' := hrem.complete _ hmem id rfl
  obtain ⟨⟨id', quantity⟩, hp, rfl⟩ := List.mem_map.1 hmem'
  obtain ⟨o, ho, hoid, hqty⟩ := hrem.account _ hp
  obtain ⟨info, hinfo, hrec⟩ := ha.recorded o ho
  simp only at hoid hqty hhead
  -- the closing response is the last one about the order
  have hrest : amountOf (s.exchange.asSent lost).responses id' = 0 := by
    have hclosing := ha.placed.closing
    rw [Exchange.stream, hhead, List.pairwise_append, List.pairwise_cons] at hclosing
    rw [hhead, amountOf_cons, amountOf_eq_zero fun d hd => hclosing.2.1.1 d hd id' rfl]
    rfl
  have hleaves : info.leavesQty = quantity := by
    have h1 := hrec.leaves_eq
    rw [Exchange.stream, amountOf_append, hrest] at hqty
    rw [hoid] at h1
    omega
  have hinfo' : s.exchange.om.orderInfoMap id' = some info := hoid ▸ hinfo
  refine ⟨info, quantity, hinfo', fun q => ⟨fun hq => ?_, fun hq => hq ▸ hp⟩, hleaves, fun om hom => ?_⟩
  · exact congrArg Prod.snd (List.inj_on_of_nodup_map hrem.nodup hq hp rfl)
  · obtain ⟨info', price, bc, hinfo₁, hprice, hbc, rfl⟩ := updateInternalData_cancel.1 hom
    rw [hinfo'] at hinfo₁
    cases hinfo₁
    refine ⟨price, hprice, ?_⟩
    rw [← hleaves]
    cases hside : info.side <;> simpa only [OrderInfo.released, hside] using hbc

/-- The states of the runs in which no confirmation finds a trade of its order waiting. -/
abbrev FlushedReachable (cfg : Config) (A : Arith) (balances : BalanceChecker) : FlakyExchange → Prop :=
  Reach (FlakyExchange.step cfg A) (fun s e => s.Allows A e) (start cfg balances)

private theorem tracks_of_flushed {balances : BalanceChecker} (h : FlushedReachable cfg A balances s) :
    s.Tracks cfg :=
  h.invariant (start_tracks balances) fun _ _ _ hi hg hs => hi.step hg hs

end FlakyExchange

/-- As long as no trade of an order waits when its cancellation is confirmed, no trade is overtaken and refunds are
right; and a step after which the order of the messages is still right has met that condition. -/
theorem confirmations_after_trades (A : Arith) (activeSymbols : List String) (cfg : Config)
    (balances : BalanceChecker) :
    (∀ s, Outbox.FlushedReachable A activeSymbols s → NoOvertaking s.log ∧
      ∀ d s', s.step A d = some s' → (NoOvertaking s'.log ↔ s.me.Flushed d)) ∧
    ∀ s, FlakyExchange.FlushedReachable cfg A balances s → s.RefundsRemoved A := by
  refine ⟨fun s hs => ?_, fun s hs => (FlakyExchange.tracks_of_flushed hs).refunds⟩
  have hlog := Outbox.noOvertaking_of_flushed hs
  exact ⟨hlog, fun d s' hd => Outbox.noOvertaking_step_iff (Outbox.inOrder_of_reach hs) hlog hd⟩

/-! ### A trade that is overtaken -/

/-- `bob` asks for ten shares, `ann` bids for four of them, `bob` cancels the rest. -/
def sampleDeliveries (sendTrade : Bool) : List Delivery :=
  [⟨.newOrderSingle (Exchange.sampleAsk.assigned 0), Exchange.zeroStamps, fun _ => true⟩,
    ⟨.newOrderSingle (Exchange.sampleBid.assigned 1), Exchange.zeroStamps, fun _ => sendTrade⟩,
    ⟨.cancelOrderRequest { Exchange.sampleCancel with orderId := some 0 }, Exchange.zeroStamps, fun _ => true⟩]

/-- The same in the exchange, up to the point where the engine has answered. -/
def sampleCancelling (sendTrade : Bool) : List (Event × (Nat → Bool)) :=
  [(.request (.newOrderSingle Exchange.sampleAsk) 0 Exchange.noIds, fun _ => true),
    (.request (.newOrderSingle Exchange.sampleBid) 0 Exchange.noIds, fun _ => true),
    (.request (.cancelOrderRequest Exchange.sampleCancel) 0 Exchange.noIds, fun _ => true),
    (.matching Exchange.zeroStamps, fun _ => true), (.matching Exchange.zeroStamps, fun _ => sendTrade),
    (.matching Exchange.zeroStamps, fun _ => true)]

theorem confirmations_after_trades_sample :
    (∃ s, Outbox.FlushedReachable .exact ["GME"] s ∧ s.log.length = 3 ∧ NoOvertaking s.log) ∧
    ∃ s, FlakyExchange.FlushedReachable twoUsers .exact twoBalances s ∧
      s.exchange.responses = [.cancelOrderResponse ⟨0, 2, true⟩] ∧ s.removed = [(0, 6)] ∧
      s.RefundsRemoved .exact := by
  have hlog : (execIf (Outbox.step .exact) (fun s d => s.me.Flushed d) (Outbox.start ["GME"])
      (sampleDeliveries true)).any (fun s => decide (s.log.length = 3)) = true := by decide +kernel
  have hrun : (execIf (FlakyExchange.step twoUsers .exact) (fun s e => s.Allows .exact e)
      (FlakyExchange.start twoUsers twoBalances)
      (sampleCancelling true ++ [(.response Exchange.noIds, fun _ => true)])).any (fun s =>
        decide (s.exchange.responses = [.cancelOrderResponse ⟨0, 2, true⟩] ∧ s.removed = [(0, 6)])) = true := by
    decide +kernel
  obtain ⟨s, hreach, h⟩ := Reach.exists_of_execIf hlog
  obtain ⟨f, hreach', h'⟩ := Reach.exists_of_execIf hrun
  obtain ⟨hresp, hrem⟩ := of_decide_eq_true h'
  obtain ⟨hall, hall'⟩ := confirmations_after_trades .exact ["GME"] twoUsers twoBalances
  exact ⟨⟨s, hreach, of_decide_eq_true h, (hall s hreach).1⟩, f, hreach', hresp, hrem, hall' f hreach'⟩

/-- The send of the trade fails: the confirmation goes out first, and ten shares are given back although six left the
book. -/
theorem confirmation_overtakes_trade :
    (∃ s, Reach (Outbox.step .exact) (fun _ _ => True) (Outbox.start ["GME"]) s ∧ ¬ NoOvertaking s.log) ∧
    ∃ s, Reach (FlakyExchange.step twoUsers .exact) (fun _ e => Exchange.Fed e.1)
      (FlakyExchange.start twoUsers twoBalances) s ∧
      s.exchange.responses = [.cancelOrderResponse ⟨0, 2, true⟩] ∧ s.removed = [(0, 6)] ∧
      (s.exchange.om.orderInfoMap 0).map OrderInfo.leavesQty = some 10 := by
  have hlog : (execIf (Outbox.step .exact) (fun _ _ => True) (Outbox.start ["GME"]) (sampleDeliveries false)).any
      (fun s =>
      decide (s.log.getLast? = some (.sent (.cancelOrderResponse ⟨0, 2, true⟩)) ∧
        tradesNaming 0 (sentOf s.log.dropLast) ≠ tradesNaming 0 (generatedOf s.log.dropLast))) = true := by
        decide +kernel
  have hrun : (execIf (FlakyExchange.step twoUsers .exact) (fun _ e => Exchange.Fed e.1)
      (FlakyExchange.start twoUsers twoBalances) (sampleCancelling false)).any (fun s =>
        decide (s.exchange.responses = [.cancelOrderResponse ⟨0, 2, true⟩] ∧ s.removed = [(0, 6)] ∧
          (s.exchange.om.orderInfoMap 0).map OrderInfo.leavesQty = some 10)) = true := by decide +kernel
  obtain ⟨s, hreach, h⟩ := Reach.exists_of_execIf hlog
  obtain ⟨f, hreach', h'⟩ := Reach.exists_of_execIf hrun
  obtain ⟨hlast, hne⟩ := of_decide_eq_true h
  refine ⟨⟨s, hreach, fun hno => hne (hno s.log.dropLast 0 2 ?_)⟩, f, hreach',
    of_decide_eq_true h'⟩
  exact ⟨[], (List.append_nil _).trans (List.dropLast_append_getLast? _ hlast)⟩

end Elsa
