import Elsa.System.Agreement
import Elsa.System.Quotes

/-!
# Requests that the engine accepts

The handlers of the engine have contracts, and look books up under the symbol of the message.  The order manager
checks symbols and quantities of new orders in `validate_container`; a query for a fill cost is sent before that,
and a cancellation is validated by its order id only.  A market bid for an unknown symbol therefore stops the engine
(`requests_accepted_unknown_symbol`).  Under the checks that are missing (`Sendable`), whatever the order manager
sends is accepted in the state in which the engine takes it.
-/

namespace Elsa

open Base LimitOrderBook

/-- The cancellation in a request. -/
def Container.cancel? : Container → Option CancelOrderRequest
  | .cancelOrderRequest c => some c
  | _ => none

/-- The query in a request. -/
def Container.query? : Container → Option FillCostQuery
  | .fillCostQuery q => some q
  | _ => none

namespace MatchingEngine

/-- The engine handles a message without a contract violation and without a failed lookup; only the assertions on text
sizes in the constructor of `Trade` may stop it. -/
def Accepts (A : Arith) (me : MatchingEngine) (c : Container) : Prop :=
  ∀ draw sendOk e, me.processContainer A draw sendOk c = .error e → e = .assertion

variable {A : Arith} {activeSymbols : List String} {me : MatchingEngine}

private theorem Ok.accepts_newOrder (h : me.Ok activeSymbols) {o : NewOrderSingle} {id : Int} {b : LimitOrderBook}
    (hid : o.orderId = some id) (hb : me.limitOrderBooks o.symbol = some b) (hfree : b.orderIdMap id = none)
    (ht : (o.taker id).Ok) (hq : 0 < o.orderQty) (hsym : b.fills (o.taker id) o.orderQty ≠ [] → o.symbol ≠ "") :
    me.Accepts A (.newOrderSingle o) := by
  intro draw sendOk e he
  obtain ⟨hbok, hticker⟩ := h.book_ok _ b hb
  obtain ⟨b', -, -, heq⟩ := hbok.addOrder_eq ht hq hfree
  have hadd : b.addOrder draw id o.enginePrice o.orderQty o.side o.senderCompId = _ := heq draw
  simp only [processContainer, newOrderHandler, hid, hb, orFail_some, ok_bind, hadd] at he
  cases htr : tradesFor draw b.ticker (o.taker id) 0 (b.fills (o.taker id) o.orderQty) with
  | ok ts =>
    rw [htr] at he
    cases he
  | error f =>
    rw [htr] at he
    cases he
    obtain ⟨hf, hfills⟩ := tradesFor_error (hbok.tradable ht hfree hq.le) htr
    rw [hf, hticker, if_neg (hsym hfills)]

private theorem Ok.accepts_cancel (h : me.Ok activeSymbols) {c : CancelOrderRequest} (hid : c.orderId ≠ none)
    (hsym : c.symbol ∈ activeSymbols) : me.Accepts A (.cancelOrderRequest c) := by
  intro draw sendOk e he
  obtain ⟨b, hb⟩ := Option.ne_none_iff_exists'.1 ((h.book_iff c.symbol).2 hsym)
  obtain ⟨id, hid'⟩ := Option.ne_none_iff_exists'.1 hid
  simp only [processContainer, cancelOrderHandler, hid', hb, orFail_some, ok_bind] at he
  cases hix : b.orderIdMap id with
  | none =>
    have hex : b.orderIdExists id = false := by rw [orderIdExists, hix]; rfl
    rw [hex] at he
    cases he
  | some a =>
    have hex : b.orderIdExists id = true := by rw [orderIdExists, hix]; rfl
    have hne : b.orderIdMap id ≠ none := by rw [hix]; exact Option.some_ne_none a
    obtain ⟨b', heq, -⟩ := (h.book_ok _ b hb).1.cancelOrder_eq hne
    rw [hex, if_pos rfl, heq] at he
    cases he

private theorem Ok.accepts_query (h : me.Ok activeSymbols) {q : FillCostQuery} (hsym : q.symbol ∈ activeSymbols)
    (hq : 0 < q.quantity) (hfit : ∀ b, me.limitOrderBooks q.symbol = some b →
      QuoteFits 2147483647 b q.side q.quantity) : me.Accepts A (.fillCostQuery q) := by
  intro draw sendOk e he
  obtain ⟨b, hb⟩ := Option.ne_none_iff_exists'.1 ((h.book_iff q.symbol).2 hsym)
  have hint : ∀ x, 0 ≤ x → x ≤ 2147483647 → A.int x = x := fun x h0 h1 => A.int_eq x ⟨by omega, h1⟩
  have hcost := (h.book_ok _ b hb).1.getFillCost_eq hint hq (hfit b hb)
  simp only [processContainer, fillCostQueryHandler, hb, orFail_some, ok_bind, hcost] at he
  cases he

end MatchingEngine

namespace Exchange

/-- What the order manager does not check before it sends a message: the sender of a new order that is entered has a
name, a market bid is for a positive quantity of an active symbol, a cancellation with an order id names an active
symbol, and the amounts of a quote fit 32 bits. -/
structure Sendable (cfg : Config) (A : Arith) (s : Exchange) (e : Event) : Prop where
  newOrder : ∀ o ∈ (request? e).bind Container.newOrder?, ∀ userId ∈ cfg.usernameUserIdMap o.senderCompId,
    s.om.orderIdMap.right (transformedClOrdId A o.clOrdId userId) = none →
      o.senderCompId ≠ "" ∧ (o.IsMarketBid → o.symbol ∈ cfg.activeSymbols ∧ 0 < o.orderQty)
  cancel : ∀ c ∈ (request? e).bind Container.cancel?,
    (preprocessedCancel cfg A s.om c).orderId ≠ none → c.symbol ∈ cfg.activeSymbols
  query : ∀ q ∈ (s.taken? e).bind Container.query?, ∀ b ∈ s.me.limitOrderBooks q.symbol,
    QuoteFits 2147483647 b q.side q.quantity

instance (bound : Int) (b : LimitOrderBook) (side : Side) (q : Int) : Decidable (QuoteFits bound b side q) :=
  decidable_of_iff ((∀ e ∈ (b.getSide side).entries, quantityOf e.2 ≤ bound) ∧ b.quote side q ≤ bound)
    ⟨fun h => ⟨h.1, h.2⟩, fun h => ⟨h.level_le, h.quote_le⟩⟩

instance (cfg : Config) (A : Arith) (s : Exchange) (e : Event) : Decidable (Sendable cfg A s e) :=
  decidable_of_iff (_ ∧ _ ∧ _) ⟨fun h => ⟨h.1, h.2.1, h.2.2⟩, fun h => ⟨h.newOrder, h.cancel, h.query⟩⟩

/-- What the order manager has sent or is about to send can be accepted. -/
structure Acceptable (cfg : Config) (s : Exchange) : Prop where
  senders : ∀ o ∈ s.history.accepted, o.senderCompId ≠ ""
  waiting : ∀ o gw, s.waiting = some (o, gw) → o.senderCompId ≠ ""
  queries : ∀ q, .fillCostQuery q ∈ s.requests → q.symbol ∈ cfg.activeSymbols ∧ 0 < q.quantity
  cancels : ∀ c, .cancelOrderRequest c ∈ s.requests → c.symbol ∈ cfg.activeSymbols

variable {cfg : Config} {A : Arith} {s s' : Exchange}

/-- The engine takes a request, or the order manager a response. -/
private theorem Acceptable.of_subset (h : s.Acceptable cfg) (hacc : s'.history.accepted = s.history.accepted)
    (hw : s'.waiting = s.waiting) (hsub : ∀ c ∈ s'.requests, c ∈ s.requests) : s'.Acceptable cfg where
  senders := hacc ▸ h.senders
  waiting := hw ▸ h.waiting
  queries q hq := h.queries q (hsub _ hq)
  cancels c hc := h.cancels c (hsub _ hc)

/-- The order manager sends a message. -/
theorem Acceptable.send (h : s.Acceptable cfg) {c : Container} (hr : s'.requests = s.requests ++ [c])
    (hacc : ∀ o ∈ s'.history.accepted, o.senderCompId ≠ "")
    (hw : ∀ o gw, s'.waiting = some (o, gw) → o.senderCompId ≠ "")
    (hq : ∀ q, c = .fillCostQuery q → q.symbol ∈ cfg.activeSymbols ∧ 0 < q.quantity)
    (hc : ∀ r, c = .cancelOrderRequest r → r.symbol ∈ cfg.activeSymbols) : s'.Acceptable cfg := by
  refine ⟨hacc, hw, fun q hmem => ?_, fun r hmem => ?_⟩
  · rw [hr, List.mem_append, List.mem_singleton] at hmem
    exact hmem.elim (h.queries q) fun he => hq q he.symm
  · rw [hr, List.mem_append, List.mem_singleton] at hmem
    exact hmem.elim (h.cancels r) fun he => hc r he.symm

theorem Acceptable.accept (h : s.Acceptable cfg) {o : NewOrderSingle} (hne : o.senderCompId ≠ "")
    (bc : BalanceChecker) : (s.accept o bc).Acceptable cfg := by
  refine h.send rfl (fun o' ho' => ?_) h.waiting (fun _ he => by cases he) fun _ he => by cases he
  rcases List.mem_append.1 ho' with ho' | ho'
  · exact h.senders o' ho'
  · rw [List.mem_singleton.1 ho']
    exact hne

theorem Acceptable.move (h : s.Acceptable cfg) {e : Event} (hg : Sendable cfg A s e) (hm : Move cfg A s e s') :
    s'.Acceptable cfg := by
  cases hm with
  | refused => exact h.of_subset rfl rfl fun _ hc => hc
  | rejected => exact h.of_subset rfl rfl fun _ hc => hc
  | forwarded o gw ids userId bc hr =>
    have hreg : (s.register A o userId gw).Acceptable cfg := h.of_subset rfl rfl fun _ hc => hc
    exact hreg.accept (o := o.assigned (s.nextId A)) (hg.newOrder o rfl userId hr.user hr.key_free).1 bc
  | queried o gw ids userId hr htype hside =>
    -- the query leaves before validation: only `Sendable` knows its symbol and quantity
    obtain ⟨hne, hbid⟩ := hg.newOrder o rfl userId hr.user hr.key_free
    refine h.send rfl h.senders (fun o' gw' he => ?_) (fun q he => ?_) fun _ he => by cases he
    · cases he
      exact hne
    · cases he
      exact hbid ⟨htype, hside⟩
  | cancelRefused => exact h
  | cancelForwarded c gw ids id hw hid =>
    refine h.send rfl h.senders h.waiting (fun _ he => by cases he) fun r he => ?_
    cases he
    rw [preprocessedCancel_symbol]
    exact hg.cancel c rfl (by rw [hid]; exact Option.some_ne_none id)
  | answerRefused => exact ⟨h.senders, fun _ _ he => (by cases he), h.queries, h.cancels⟩
  | answerAccepted o gw cost answers ids bc hw =>
    have hidle : Acceptable cfg { s with waiting := none, answers } :=
      ⟨h.senders, fun _ _ he => (by cases he), h.queries, h.cancels⟩
    exact hidle.accept (h.waiting o gw hw) bc
  | matched o id b b' requests draw hr => exact h.of_subset rfl rfl fun c hc => hr ▸ List.mem_cons_of_mem _ hc
  | cancelled c id b b' requests draw hr => exact h.of_subset rfl rfl fun c hc => hr ▸ List.mem_cons_of_mem _ hc
  | cancelMissed c id requests draw hr => exact h.of_subset rfl rfl fun c hc => hr ▸ List.mem_cons_of_mem _ hc
  | quoted q b cost requests draw hr => exact h.of_subset rfl rfl fun c hc => hr ▸ List.mem_cons_of_mem _ hc
  | settled => exact h.of_subset rfl rfl fun _ hc => hc
  | confirmed => exact h.of_subset rfl rfl fun _ hc => hc
  | cancelFailed => exact h.of_subset rfl rfl fun _ hc => hc

/-- A new order that is on its way meets the contract of `add_order`, and of `create_trade` for each of its trades. -/
private theorem Agrees.accepts_newOrder (h : s.Agrees cfg) (ha : s.Acceptable cfg) {o : NewOrderSingle}
    (ho : o ∈ requested s.requests) : s.me.Accepts A (.newOrderSingle o) := by
  have hacc := h.placed.mem_accepted ho
  have had := h.placed.admitted o hacc
  obtain ⟨b, hb⟩ := Option.ne_none_iff_exists'.1 ((h.placed.engine_ok.book_iff o.symbol).2 had.symbol_active)
  have hid := (h.range o.id (h.accepted_known (List.mem_map.2 ⟨o, hacc, rfl⟩))).1
  have hprice : (o.enginePrice = marketAskOrderPrice ∨ 0 < o.enginePrice) ∧ o.enginePrice ≤ marketBidOrderPrice := by
    rw [NewOrderSingle.enginePrice]
    cases hp : o.price with
    | some p => exact ⟨Or.inr (had.price_range p hp).1, (had.price_range p hp).2⟩
    | none => cases o.side <;> decide
  have htaker : (o.taker o.id).Ok := ⟨hid, hprice.1, hprice.2, ha.senders o hacc⟩
  refine h.placed.engine_ok.accepts_newOrder had.id_eq hb
    (h.placed.requested_absent o ho _ b hb) htaker had.qty_pos ?_
  -- a trade has an ask on one side, and no ask is accepted under the empty symbol
  intro hfills
  cases hside : o.side with
  | ask => exact had.symbol_ne hside
  | bid =>
    obtain ⟨f, fs, hf⟩ := List.exists_cons_of_ne_nil hfills
    obtain ⟨hfar, -, -⟩ := (h.placed.engine_ok.book_ok _ b hb).1.mem_fills had.qty_pos.le (hf ▸ List.mem_cons_self)
    rw [show (o.taker o.id).side = .bid from hside] at hfar
    obtain ⟨o', ho', hr⟩ := h.placed.resting _ b hb f.1 (List.mem_append_right _ hfar)
    have hask := hr.side_eq.trans ((h.placed.engine_ok.book_ok _ b hb).1.node_ok hfar).1.side_eq
    exact hr.symbol_eq ▸ (h.placed.admitted o' ho').symbol_ne hask

/-- The steps of a run in which the order manager sends only what the engine accepts. -/
abbrev SendsAcceptable (cfg : Config) (A : Arith) (s : Exchange) (e : Event) : Prop :=
  Fed e ∧ CounterFits A s e ∧ Sendable cfg A s e

/-- Whatever is next on the request connection, the engine accepts it in the state it is in.  The same holds of a
cancellation after which the order manager stops because the order is not in its maps: it was sent all the same. -/
theorem requests_accepted {balances : BalanceChecker}
    (h : Reach (step cfg A) (SendsAcceptable cfg A) (start cfg balances) s) :
    (∀ draw c requests, Sendable cfg A s (.matching draw) → s.requests = c :: requests → s.me.Accepts A c) ∧
      ∀ om c, (preprocessedCancel cfg A om c).orderId ≠ none → c.symbol ∈ cfg.activeSymbols →
        s.me.Accepts A (.cancelOrderRequest (preprocessedCancel cfg A om c)) := by
  obtain ⟨hag, hacc⟩ := invariant_of_moves (I := Acceptable cfg) (fun _ _ hg => ⟨hg.1, hg.2.1⟩) h
    ⟨fun _ ho => (by cases ho), fun _ _ hw => (by cases hw), fun _ hq => (by cases hq), fun _ hc => (by cases hc)⟩
    fun _ _ _ _ ha hg hm => ha.move hg.2.2 hm
  refine ⟨fun draw c requests hsend hr => ?_, fun om c hid hsym => ?_⟩
  · have hmem : c ∈ s.requests := hr ▸ List.mem_cons_self
    rcases hag.placed.kinds c hmem with ⟨o, -, rfl⟩ | ⟨r, rfl⟩ | ⟨q, rfl⟩
    · exact hag.accepts_newOrder hacc (mem_requested.2 hmem)
    · obtain ⟨id, hid, -⟩ := hag.cancels r hmem
      exact hag.placed.engine_ok.accepts_cancel (by rw [hid]; exact Option.some_ne_none id) (hacc.cancels r hmem)
    · obtain ⟨hsym, hq⟩ := hacc.queries q hmem
      exact hag.placed.engine_ok.accepts_query hsym hq (hsend.query q (by rw [taken?, hr]; rfl))
  · refine hag.placed.engine_ok.accepts_cancel hid ?_
    rwa [preprocessedCancel_symbol]

/-- The query of a market bid is next; it finds an ask to fill. -/
theorem requests_accepted_sampleMarketBid : ∃ s : Exchange,
    Reach (step twoUsers .machine) (SendsAcceptable twoUsers .machine) (start twoUsers twoBalances) s ∧
      s.requests = [.fillCostQuery ⟨"GME", 4, .ask⟩] ∧ s.me.Accepts .machine (.fillCostQuery ⟨"GME", 4, .ask⟩) := by
  have hrun : (execIf (step twoUsers .machine) (SendsAcceptable twoUsers .machine) (start twoUsers twoBalances)
      [.request (.newOrderSingle sampleAsk) 0 noIds, .matching zeroStamps,
        .request (.newOrderSingle sampleMarketBid) 0 noIds]).any (fun s =>
      decide (s.requests = [.fillCostQuery ⟨"GME", 4, .ask⟩]) &&
        decide (Sendable twoUsers .machine s (.matching zeroStamps))) = true := by decide +kernel
  obtain ⟨s, hreach, h⟩ := Reach.exists_of_execIf hrun
  rw [Bool.and_eq_true, decide_eq_true_eq, decide_eq_true_eq] at h
  exact ⟨s, hreach, h.1, (requests_accepted hreach).1 zeroStamps _ [] h.2 h.1⟩

/-- A market bid for a symbol that is not active: its query is sent before it is validated, and the engine has no
book for it. -/
theorem requests_accepted_unknown_symbol : ∃ s : Exchange,
    Reach (step twoUsers .machine) (fun s e => Fed e ∧ CounterFits .machine s e) (start twoUsers twoBalances) s ∧
      s.requests = [.fillCostQuery ⟨"AMC", 4, .ask⟩] ∧
      s.me.processContainer .machine zeroStamps (fun _ => true) (.fillCostQuery ⟨"AMC", 4, .ask⟩) =
        .error .outOfRange := by
  have hrun : (execIf (step twoUsers .machine) (fun s e => Fed e ∧ CounterFits .machine s e)
      (start twoUsers twoBalances)
      [.request (.newOrderSingle ⟨"ann", "GME_SERVER", none, 1, "AMC", .bid, 4, .market, none, .day⟩) 0 noIds]).any
      (fun s =>
      decide (s.requests = [.fillCostQuery ⟨"AMC", 4, .ask⟩]) &&
        decide (errorOf (s.me.processContainer .machine zeroStamps (fun _ => true)
          (.fillCostQuery ⟨"AMC", 4, .ask⟩)) =
          some .outOfRange)) = true := by decide +kernel
  obtain ⟨s, hreach, h⟩ := Reach.exists_of_execIf hrun
  rw [Bool.and_eq_true, decide_eq_true_eq, decide_eq_true_eq] at h
  exact ⟨s, hreach, h.1, errorOf_eq_some.1 h.2⟩

end Exchange

end Elsa
