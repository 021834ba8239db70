import Elsa.Engine.MatchingEngine

/-!
# Trades that wait to be sent

A send on the response connection may fail.  A trade whose send fails stays in `trade_events`, with all that come
after it, and is sent again when the next new order is handled; the answer to a cancellation is sent at once and
does not pass through `trade_events`.  The log of an engine lists the trades in the order in which they are made and
the responses in the order in which they are sent.

Trades are sent in the order in which they are made, and those that are not sent wait (`sentOf_append_waiting`).  A
confirmed cancellation overtakes a trade exactly when a trade of its order waits at that moment
(`noOvertaking_step_iff`).
-/

namespace Elsa

open Base LimitOrderBook

inductive LogEntry
  | generated (t : Trade)
  | sent (c : Container)
deriving DecidableEq

/-- A message for the engine, with what it draws and what the sends return. -/
structure Delivery where
  container : Container
  draw : Nat → Stamp
  sendOk : Nat → Bool

def TradeContainer.Names (t : TradeContainer) (id : Int) : Prop := t.takerOrderId = id ∨ t.makerOrderId = id

instance (t : TradeContainer) (id : Int) : Decidable (t.Names id) := inferInstanceAs (Decidable (_ ∨ _))

def LogEntry.generated? : LogEntry → Option TradeContainer
  | .generated t => some t.toContainer
  | .sent _ => none

def LogEntry.sentTrade? : LogEntry → Option TradeContainer
  | .sent (.trade t) => some t
  | _ => none

/-- The trades that were made, as messages. -/
def generatedOf (log : List LogEntry) : List TradeContainer := log.filterMap LogEntry.generated?

/-- The trades that were sent. -/
def sentOf (log : List LogEntry) : List TradeContainer := log.filterMap LogEntry.sentTrade?

/-- The trades of one order. -/
def tradesNaming (id : Int) (ts : List TradeContainer) : List TradeContainer := ts.filter fun t => t.Names id

/-- When the cancellation of an order is confirmed, all trades of the order that were made have been sent. -/
def NoOvertaking (log : List LogEntry) : Prop :=
  ∀ before id clOrdId, before ++ [.sent (.cancelOrderResponse ⟨id, clOrdId, true⟩)] <+: log →
    tradesNaming id (sentOf before) = tradesNaming id (generatedOf before)

namespace MatchingEngine

/-- The trades that `add_order` makes while a message is handled. -/
def tradesMade (draw : Nat → Stamp) (me : MatchingEngine) : Container → List Trade
  | .newOrderSingle o =>
    match me.limitOrderBooks o.symbol, o.orderId with
    | some b, some id =>
      match b.addOrder draw id o.enginePrice o.orderQty o.side o.senderCompId with
      | .ok (_, trades) => trades
      | .error _ => []
    | _, _ => []
  | _ => []

/-- The order whose cancellation is confirmed by a response that is sent. -/
def confirms? (me : MatchingEngine) (d : Delivery) : Option Int :=
  match d.container with
  | .cancelOrderRequest c =>
    match c.orderId, me.limitOrderBooks c.symbol with
    | some id, some b => if b.orderIdExists id = true ∧ d.sendOk 0 = true then some id else none
    | _, _ => none
  | _ => none

/-- No trade of an order waits when its cancellation is confirmed. -/
def Flushed (me : MatchingEngine) (d : Delivery) : Prop :=
  ∀ id ∈ me.confirms? d, ∀ t ∈ me.tradeEvents, ¬ t.toContainer.Names id

instance (me : MatchingEngine) (d : Delivery) : Decidable (me.Flushed d) :=
  inferInstanceAs (Decidable (∀ id ∈ me.confirms? d, ∀ t ∈ me.tradeEvents, ¬ t.toContainer.Names id))

end MatchingEngine

/-- The loop sends a first part of the queue and keeps the rest. -/
private theorem drainTrades_split (sendOk : Nat → Bool) (k : Nat) (ts : List Trade) :
    ∃ sent, ts = sent ++ (drainTrades sendOk k ts).2 ∧
      (drainTrades sendOk k ts).1 = sent.map fun t => .trade t.toContainer := by
  induction ts generalizing k with
  | nil => exact ⟨[], rfl, rfl⟩
  | cons t ts ih =>
    unfold drainTrades
    split
    · obtain ⟨sent, h1, h2⟩ := ih (k + 1)
      exact ⟨t :: sent, congrArg (t :: ·) h1, congrArg (Container.trade t.toContainer :: ·) h2⟩
    · exact ⟨[], rfl, rfl⟩

/-! ### Logs -/

private theorem generatedOf_append (log log' : List LogEntry) :
    generatedOf (log ++ log') = generatedOf log ++ generatedOf log' :=
  List.filterMap_append

private theorem sentOf_append (log log' : List LogEntry) : sentOf (log ++ log') = sentOf log ++ sentOf log' :=
  List.filterMap_append

@[simp] theorem generatedOf_generated (ts : List Trade) :
    generatedOf (ts.map .generated) = ts.map Trade.toContainer := by
  induction ts with
  | nil => rfl
  | cons t ts ih => exact congrArg (t.toContainer :: ·) ih

@[simp] theorem sentOf_generated (ts : List Trade) : sentOf (ts.map .generated) = [] := by
  induction ts with
  | nil => rfl
  | cons t ts ih => exact ih

@[simp] theorem generatedOf_sent (cs : List Container) : generatedOf (cs.map .sent) = [] := by
  induction cs with
  | nil => rfl
  | cons c cs ih => exact ih

@[simp] theorem sentOf_trades (ts : List Trade) :
    sentOf (ts.map fun t => .sent (.trade t.toContainer)) = ts.map Trade.toContainer := by
  induction ts with
  | nil => rfl
  | cons t ts ih => exact congrArg (t.toContainer :: ·) ih

private theorem noOvertaking_nil : NoOvertaking [] := by
  intro before id clOrdId h
  have := h.length_le
  simp at this

private theorem noOvertaking_concat (log : List LogEntry) (e : LogEntry) :
    NoOvertaking (log ++ [e]) ↔ NoOvertaking log ∧
      ∀ id clOrdId, e = .sent (.cancelOrderResponse ⟨id, clOrdId, true⟩) →
        tradesNaming id (sentOf log) = tradesNaming id (generatedOf log) := by
  unfold NoOvertaking
  constructor
  · intro h
    refine ⟨fun before id clOrdId hp => h before id clOrdId (hp.trans (List.prefix_append ..)), ?_⟩
    rintro id clOrdId rfl
    exact h log id clOrdId List.prefix_rfl
  · rintro ⟨h, he⟩ before id clOrdId hp
    rcases List.prefix_concat_iff.1 hp with heq | hp
    · obtain ⟨rfl, hlast⟩ := List.append_inj' heq rfl
      cases hlast
      exact he id clOrdId rfl
    · exact h before id clOrdId hp

/-- What is not the confirmation of a cancellation does not matter. -/
private theorem noOvertaking_append {log log' : List LogEntry}
    (h : ∀ e ∈ log', ∀ id clOrdId, e ≠ .sent (.cancelOrderResponse ⟨id, clOrdId, true⟩)) :
    NoOvertaking (log ++ log') ↔ NoOvertaking log := by
  induction log' generalizing log with
  | nil => rw [List.append_nil]
  | cons e log' ih =>
    rw [List.append_cons, ih fun e he => h e (List.mem_cons_of_mem _ he), noOvertaking_concat]
    constructor
    · exact And.left
    · exact fun hlog => ⟨hlog, fun id clOrdId he => absurd he (h e List.mem_cons_self id clOrdId)⟩

/-! ### Runs of the engine -/

/-- An engine and its log. -/
structure Outbox where
  me : MatchingEngine
  log : List LogEntry

namespace Outbox

variable (A : Arith)

def start (activeSymbols : List String) : Outbox := ⟨.new activeSymbols, []⟩

def step (s : Outbox) (d : Delivery) : Option Outbox :=
  match s.me.processContainer A d.draw d.sendOk d.container with
  | .ok (me, out) =>
    some ⟨me, s.log ++ (s.me.tradesMade d.draw d.container).map .generated ++ out.responses.map .sent⟩
  | .error _ => none

end Outbox

namespace MatchingEngine

variable {A : Arith} {me me' : MatchingEngine} {out : Sent} {d : Delivery}

/-- A new order adds its trades to the queue, and a first part of the queue is sent. -/
theorem processContainer_newOrder {o : NewOrderSingle} (ho : d.container = .newOrderSingle o)
    (h : me.processContainer A d.draw d.sendOk d.container = .ok (me', out)) :
    ∃ sent, me.tradeEvents ++ me.tradesMade d.draw d.container = sent ++ me'.tradeEvents ∧
      out.responses = sent.map fun t => .trade t.toContainer := by
  rw [ho] at h ⊢
  simp only [processContainer, newOrderHandler, bind_eq_ok, require_eq_ok, orFail_eq_ok] at h
  obtain ⟨-, -, b, hb, id, hid, ⟨b', ts⟩, hadd, h⟩ := h
  obtain ⟨sent, h1, h2⟩ := drainTrades_split d.sendOk 0 (me.tradeEvents ++ ts)
  have hmade : me.tradesMade d.draw (.newOrderSingle o) = ts := by simp only [tradesMade, hb, hid, hadd]
  cases h
  rw [hmade]
  exact ⟨sent, h1, h2⟩

/-- A cancellation leaves the queue alone; its answer is sent or lost. -/
theorem processContainer_cancel {c : CancelOrderRequest} (hc : d.container = .cancelOrderRequest c)
    (h : me.processContainer A d.draw d.sendOk d.container = .ok (me', out)) :
    me'.tradeEvents = me.tradeEvents ∧ ∃ id b, c.orderId = some id ∧ me.limitOrderBooks c.symbol = some b ∧
      out.responses = if d.sendOk 0 then [.cancelOrderResponse ⟨id, c.clOrdId, b.orderIdExists id⟩] else [] := by
  rw [hc] at h
  simp only [processContainer, cancelOrderHandler, bind_eq_ok, require_eq_ok, orFail_eq_ok] at h
  obtain ⟨-, -, b, hb, id, hid, h⟩ := h
  suffices hq : me'.tradeEvents = me.tradeEvents ∧ out.responses =
      if d.sendOk 0 then [.cancelOrderResponse ⟨id, c.clOrdId, b.orderIdExists id⟩] else [] from
    ⟨hq.1, id, b, hid, hb, hq.2⟩
  split at h
  · cases hcan : b.cancelOrder id with
    | error f => rw [hcan] at h; cases h
    | ok b' => rw [hcan] at h; cases h; exact ⟨rfl, rfl⟩
  · cases h; exact ⟨rfl, rfl⟩

/-- Other messages send nothing on the response connection. -/
theorem processContainer_other (h1 : ∀ o, d.container ≠ .newOrderSingle o)
    (h2 : ∀ c, d.container ≠ .cancelOrderRequest c)
    (h : me.processContainer A d.draw d.sendOk d.container = .ok (me', out)) :
    me'.tradeEvents = me.tradeEvents ∧ out.responses = [] := by
  obtain ⟨c, draw, sendOk⟩ := d
  cases c with
  | newOrderSingle o => exact absurd rfl (h1 o)
  | cancelOrderRequest c => exact absurd rfl (h2 c)
  | fillCostQuery q =>
    simp only [processContainer, fillCostQueryHandler, bind_eq_ok] at h
    obtain ⟨b, -, cost, -, h⟩ := h
    cases h
    exact ⟨rfl, rfl⟩
  | executionReport r => cases h; exact ⟨rfl, rfl⟩
  | fillCostResponse r => cases h; exact ⟨rfl, rfl⟩
  | trade t => cases h; exact ⟨rfl, rfl⟩
  | cancelOrderResponse r => cases h; exact ⟨rfl, rfl⟩

end MatchingEngine

namespace Outbox

variable {A : Arith} {s s' : Outbox} {d : Delivery}

/-- What a step adds to the log: new trades and a first part of the queue, or the answer to a cancellation. -/
theorem step_cases (h : s.step A d = some s') :
    (s.me.confirms? d = none ∧ ∃ made sent, s.me.tradeEvents ++ made = sent ++ s'.me.tradeEvents ∧
        s'.log = s.log ++ made.map .generated ++ sent.map fun t => .sent (.trade t.toContainer)) ∨
      (s'.me.tradeEvents = s.me.tradeEvents ∧ ∃ id clOrdId success,
        s'.log = s.log ++ [.sent (.cancelOrderResponse ⟨id, clOrdId, success⟩)] ∧
          s.me.confirms? d = if success then some id else none) := by
  unfold step at h
  cases hp : s.me.processContainer A d.draw d.sendOk d.container with
  | error f => simp [hp] at h
  | ok r =>
    obtain ⟨me', out⟩ := r
    simp only [hp, Option.some.injEq] at h
    subst h
    by_cases h1 : ∃ o, d.container = .newOrderSingle o
    · obtain ⟨o, ho⟩ := h1
      obtain ⟨sent, hq, hr⟩ := MatchingEngine.processContainer_newOrder ho hp
      refine Or.inl ⟨by simp [MatchingEngine.confirms?, ho], _, sent, hq, ?_⟩
      rw [hr, List.map_map]
      rfl
    · by_cases h2 : ∃ c, d.container = .cancelOrderRequest c
      · obtain ⟨c, hc⟩ := h2
        obtain ⟨hq, id, b, hid, hb, hr⟩ := MatchingEngine.processContainer_cancel hc hp
        have hmade : s.me.tradesMade d.draw d.container = [] := by rw [hc]; rfl
        cases hs : d.sendOk 0 with
        | true =>
          refine Or.inr ⟨hq, id, c.clOrdId, b.orderIdExists id, ?_, ?_⟩
          · simp [hr, hs, hmade]
          · simp [MatchingEngine.confirms?, hc, hid, hb, hs]
        | false =>
          refine Or.inl ⟨by simp [MatchingEngine.confirms?, hc, hid, hb, hs], [], [], by simp [hq], ?_⟩
          simp [hr, hs, hmade]
      · obtain ⟨hq, hr⟩ := MatchingEngine.processContainer_other (fun o ho => h1 ⟨o, ho⟩) (fun c hc => h2 ⟨c, hc⟩) hp
        have hmade : s.me.tradesMade d.draw d.container = [] := by
          unfold MatchingEngine.tradesMade
          split
          · rename_i o ho
            exact absurd ⟨o, ho⟩ h1
          · rfl
        have hnone : s.me.confirms? d = none := by
          unfold MatchingEngine.confirms?
          split
          · rename_i c hc
            exact absurd ⟨c, hc⟩ h2
          · rfl
        refine Or.inl ⟨hnone, [], [], by simp [hq], ?_⟩
        simp [hr, hmade]

/-- Trades are sent in the order in which they were made; the others wait. -/
def InOrder (s : Outbox) : Prop := generatedOf s.log = sentOf s.log ++ s.me.tradeEvents.map Trade.toContainer

theorem InOrder.step (hi : s.InOrder) (h : s.step A d = some s') : s'.InOrder := by
  unfold InOrder at *
  rcases step_cases h with ⟨-, made, sent, hq, hlog⟩ | ⟨hq, id, clOrdId, success, hlog, -⟩
  · have hgen : generatedOf (sent.map fun t => .sent (.trade t.toContainer)) = [] := by
      rw [show (fun t : Trade => LogEntry.sent (.trade t.toContainer)) = LogEntry.sent ∘ fun t =>
        .trade t.toContainer from rfl, ← List.map_map]
      exact generatedOf_sent _
    have hq' := congrArg (List.map Trade.toContainer) hq
    rw [List.map_append, List.map_append] at hq'
    rw [hlog]
    simp only [generatedOf_append, sentOf_append, generatedOf_generated, sentOf_generated, sentOf_trades, hgen, hi,
      List.append_nil, List.nil_append, List.append_assoc, hq']
  · have hgen : generatedOf [.sent (.cancelOrderResponse ⟨id, clOrdId, success⟩)] = [] := rfl
    have hsent : sentOf [.sent (.cancelOrderResponse ⟨id, clOrdId, success⟩)] = [] := rfl
    rw [hlog, hq, generatedOf_append, sentOf_append, hgen, hsent, List.append_nil, List.append_nil, hi]

/-- In every run, whatever the sends return. -/
theorem inOrder_of_reach {guard : Outbox → Delivery → Prop} {activeSymbols : List String}
    (h : Reach (Outbox.step A) guard (start activeSymbols) s) : s.InOrder :=
  h.invariant rfl fun _ _ _ hi _ hs => hi.step hs

/-- After every call the trades sent so far, followed by those that wait, are all trades that the books made so far
in the order in which they made them. -/
theorem sentOf_append_waiting (A : Arith) (activeSymbols : List String) (deliveries : List Delivery) (s : Outbox)
    (h : exec (Outbox.step A) (start activeSymbols) deliveries = some s) :
    sentOf s.log ++ s.me.tradeEvents.map Trade.toContainer = generatedOf s.log :=
  (inOrder_of_reach (Reach.start.trans_exec h)).symm

/-- A new order for the sample run. -/
def sampleOrder (id : Int) (symbol : String) (side : Side) (qty : Int) (sendOk : Nat → Bool) : Delivery :=
  ⟨.newOrderSingle ⟨"bob", "OM", some id, id, symbol, side, qty, .limit, some 100, .day⟩,
    fun _ => .zero, sendOk⟩

/-- Two trades in the first symbol cannot be sent at first.  The first of them goes out with an order in the second
symbol, whose own trade waits behind the other one. -/
theorem sentOf_append_waiting_sample :
    ∃ s deliveries, exec (Outbox.step .exact) (start ["GME", "AMC"]) deliveries = some s ∧
    (sentOf s.log).map (fun t => (t.ticker, t.quantity)) = [("GME", 2)] ∧
    s.me.tradeEvents.map (fun t => (t.ticker, t.quantity)) = [("GME", 3), ("AMC", 4)] ∧
    sentOf s.log ++ s.me.tradeEvents.map Trade.toContainer = generatedOf s.log := by
  have hrun : (exec (Outbox.step .exact) (start ["GME", "AMC"])
      [sampleOrder 0 "GME" .ask 2 fun _ => true, sampleOrder 1 "GME" .ask 4 fun _ => true,
        sampleOrder 2 "GME" .bid 5 fun _ => false, sampleOrder 3 "AMC" .bid 4 fun _ => false,
        sampleOrder 4 "AMC" .ask 4 fun k => k = 0]).any (fun s =>
      decide ((sentOf s.log).map (fun t => (t.ticker, t.quantity)) = [("GME", 2)] ∧
        s.me.tradeEvents.map (fun t => (t.ticker, t.quantity)) = [("GME", 3), ("AMC", 4)])) = true := by
        decide +kernel
  obtain ⟨s, hs, h⟩ := (Option.any_eq_true _ _).1 hrun
  obtain ⟨hsent, hwait⟩ := of_decide_eq_true h
  exact ⟨s, _, hs, hsent, hwait, sentOf_append_waiting .exact ["GME", "AMC"] _ s hs⟩

/-- All trades of an order were sent exactly when none of them waits. -/
private theorem InOrder.sent_iff (hi : s.InOrder) (id : Int) :
    tradesNaming id (sentOf s.log) = tradesNaming id (generatedOf s.log) ↔
      ∀ t ∈ s.me.tradeEvents, ¬ t.toContainer.Names id := by
  unfold InOrder at hi
  rw [hi, tradesNaming, tradesNaming, List.filter_append, List.self_eq_append_right, List.filter_eq_nil_iff]
  simp

/-- A step keeps the order of the messages exactly when it confirms no cancellation of an order with waiting trades.
-/
theorem noOvertaking_step_iff (hi : s.InOrder) (hlog : NoOvertaking s.log) (h : s.step A d = some s') :
    NoOvertaking s'.log ↔ s.me.Flushed d := by
  rcases step_cases h with ⟨hnone, made, sent, -, hlog'⟩ | ⟨-, id, clOrdId, success, hlog', hconf⟩
  · rw [hlog', List.append_assoc, noOvertaking_append]
    · refine iff_of_true hlog fun id hid => ?_
      rw [hnone] at hid
      cases hid
    · intro e he id clOrdId heq
      rcases List.mem_append.1 he with he | he <;> obtain ⟨t, -, rfl⟩ := List.mem_map.1 he <;> cases heq
  · rw [hlog', noOvertaking_concat]
    unfold MatchingEngine.Flushed
    rw [hconf]
    cases success with
    | true =>
      constructor
      · rintro ⟨-, h'⟩ id' hid'
        cases hid'
        exact (hi.sent_iff id).1 (h' id clOrdId rfl)
      · intro h'
        refine ⟨hlog, fun id' clOrdId' heq => ?_⟩
        cases heq
        exact (hi.sent_iff id).2 (h' id rfl)
    | false =>
      refine iff_of_true ⟨hlog, fun id' clOrdId' heq => by cases heq⟩ fun id' hid' => by cases hid'

/-- The states of the runs in which no confirmation finds a trade of its order waiting. -/
abbrev FlushedReachable (A : Arith) (activeSymbols : List String) : Outbox → Prop :=
  Reach (Outbox.step A) (fun s d => s.me.Flushed d) (start activeSymbols)

theorem noOvertaking_of_flushed {activeSymbols : List String} (h : FlushedReachable A activeSymbols s) :
    NoOvertaking s.log := by
  refine (h.invariant (I := fun s => s.InOrder ∧ NoOvertaking s.log) ⟨rfl, noOvertaking_nil⟩ ?_).2
  rintro s d s' ⟨hi, hlog⟩ hg hs
  exact ⟨hi.step hs, (noOvertaking_step_iff hi hlog hs).2 hg⟩

end Outbox

end Elsa
