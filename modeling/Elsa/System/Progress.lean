import Mathlib.Algebra.BigOperators.Group.Finset.Basic
import Elsa.Manager.Requests
import Elsa.System.Acceptance
import Elsa.System.Schedules
import Elsa.System.Solvency

/-!
# The exchange comes to rest

If clients send nothing more, the order manager and the engine work off what is on its way and then stop: no order
of their steps gets stuck before every channel is empty, and none goes on for ever (`drains`).

Nothing gets stuck because the engine handles whatever is next (as long as market bids and cancellations name an
active symbol and all names fit the arrays of `Trade`), because the order manager handles every answer and every
response, and because an answer that is awaited is on its way or there.  Nothing goes on for ever because each step
lowers `backlog`:

* a new order costs two: one for its own step and one for the trade that may leave its maker resting; every other
  trade removes a resting order, which counts as one;
* a cancellation costs two, its own step and the response;
* a query costs four: its own step, the step that takes the answer, and the order that may follow;
* a response costs one.
-/

namespace Elsa

open Base LimitOrderBook

/-- All symbols and user names fit the arrays of `Trade`. -/
structure Config.NamesFit (cfg : Config) : Prop where
  symbols : ∀ symbol ∈ cfg.activeSymbols, FitsField symbol maxTickerLength
  users : ∀ u, cfg.usernameUserIdMap u ≠ none → FitsField u maxUsernameLength

private theorem FitsField.ne_empty {text : String} {size : Nat} (h : FitsField text size) : text ≠ "" := by
  rintro rfl
  exact absurd h.1 (by decide)

/-- A message that names an active symbol where the engine needs one. -/
def Container.Addressed (cfg : Config) : Container → Prop
  | .newOrderSingle o => o.IsMarketBid → o.symbol ∈ cfg.activeSymbols ∧ 0 < o.orderQty
  | .cancelOrderRequest c => c.symbol ∈ cfg.activeSymbols
  | .fillCostQuery q => q.symbol ∈ cfg.activeSymbols ∧ 0 < q.quantity
  | _ => True

instance (cfg : Config) (c : Container) : Decidable (c.Addressed cfg) :=
  match c with
  | .newOrderSingle o => inferInstanceAs (Decidable (o.IsMarketBid → _))
  | .cancelOrderRequest c => inferInstanceAs (Decidable (c.symbol ∈ cfg.activeSymbols))
  | .fillCostQuery q => inferInstanceAs (Decidable (q.symbol ∈ cfg.activeSymbols ∧ 0 < q.quantity))
  | .executionReport _ => inferInstanceAs (Decidable True)
  | .fillCostResponse _ => inferInstanceAs (Decidable True)
  | .trade _ => inferInstanceAs (Decidable True)
  | .cancelOrderResponse _ => inferInstanceAs (Decidable True)

/-! ### The engine handles what is next -/

/-- A match leaves at most one more order resting than its trades remove. -/
private theorem LimitOrderBook.Matched.nodes_length {b b' : LimitOrderBook} {t : Taker} {q : Int}
    (hm : b.Matched t q b') (hq : 0 ≤ q) : b'.nodes.length + (b.fills t q).length ≤ b.nodes.length + 1 := by
  have hsplit : (t.reached (b.queue t.side.opposite)).length + (t.unreached (b.queue t.side.opposite)).length =
      (b.queue t.side.opposite).length := by
    rw [← List.length_append, Taker.reached, Taker.unreached, List.takeWhile_append_dropWhile]
  have hallot := nodeLots.length_allot_add_leftover hq (t.reached (b.queue t.side.opposite))
  rw [(b'.nodes_perm t.side).length_eq, (b.nodes_perm t.side).length_eq, List.length_append, List.length_append,
    hm.far_queue, hm.near_queue, List.length_append, fills]
  by_cases hrest : b.Rests t q
  · have hpos : 0 < nodeLots.unmet q (t.reached (b.queue t.side.opposite)) := hrest.1
    rw [if_pos hrest, (enqueue_perm _ _ _ _).length_eq, List.length_cons]
    rw [if_pos hpos] at hallot
    omega
  · rw [if_neg hrest]
    omega

private theorem LimitOrderBook.Cancelled.nodes_length_le {b b' : LimitOrderBook} {id : Int} (hc : b.Cancelled id b') :
    b'.nodes.length ≤ b.nodes.length := by
  rw [nodes, nodes, hc.queue_eq, hc.queue_eq, List.length_append, List.length_append]
  exact Nat.add_le_add (List.length_filter_le _ _) (List.length_filter_le _ _)

namespace MatchingEngine

variable {activeSymbols : List String} {me : MatchingEngine}

/-- An admissible order whose trades have texts that fit is matched. -/
private theorem Ok.newOrder_succeeds (h : me.Ok activeSymbols) {o : NewOrderSingle} {id : Int} {b : LimitOrderBook}
    (hid : o.orderId = some id) (hb : me.limitOrderBooks o.symbol = some b) (hfree : b.orderIdMap id = none)
    (ht : (o.taker id).Ok) (hq : 0 < o.orderQty)
    (hfit : ∀ f ∈ b.fills (o.taker id) o.orderQty, TextsFit o.symbol o.senderCompId f.1.order.traderId) {A : Arith}
    (draw : Nat → Stamp) : ∃ r, me.processContainer A draw (fun _ => true) (.newOrderSingle o) = .ok r := by
  obtain ⟨hbok, hticker⟩ := h.book_ok _ b hb
  obtain ⟨b', -, -, heq⟩ := hbok.addOrder_eq ht hq hfree
  have hadd : b.addOrder draw id o.enginePrice o.orderQty o.side o.senderCompId = _ := heq draw
  obtain ⟨ts, htrades⟩ : ∃ ts, tradesFor draw b.ticker (o.taker id) 0 (b.fills (o.taker id) o.orderQty) = .ok ts :=
    ⟨_, (tradesFor_eq_ok_iff (hbok.tradable ht hfree hq.le)).2 ⟨hticker ▸ hfit, rfl⟩⟩
  simp only [processContainer, newOrderHandler, hid, hb, orFail_some, ok_bind, hadd, htrades]
  exact ⟨_, rfl⟩

/-- The engine can answer a cancellation on an active symbol. -/
theorem Ok.cancel_succeeds (h : me.Ok activeSymbols) {c : CancelOrderRequest} {id : Int} (hid : c.orderId = some id)
    (hsym : c.symbol ∈ activeSymbols) {A : Arith} (draw : Nat → Stamp) :
    ∃ r, me.processContainer A draw (fun _ => true) (.cancelOrderRequest c) = .ok r := by
  obtain ⟨b, hb⟩ := Option.ne_none_iff_exists'.1 ((h.book_iff c.symbol).2 hsym)
  simp only [processContainer, cancelOrderHandler, hid, hb, orFail_some, ok_bind]
  by_cases hex : b.orderIdExists id = true
  · obtain ⟨b', heq, -⟩ := (h.book_ok _ b hb).1.cancelOrder_eq (Option.isSome_iff_ne_none.1 hex)
    rw [if_pos hex, heq]
    exact ⟨_, rfl⟩
  · rw [if_neg hex]
    exact ⟨_, rfl⟩

/-- The engine can answer a query on an active symbol. -/
private theorem Ok.query_succeeds (h : me.Ok activeSymbols) {q : FillCostQuery} (hsym : q.symbol ∈ activeSymbols)
    (hq : 0 < q.quantity) (draw : Nat → Stamp) :
    ∃ r, me.processContainer .exact draw (fun _ => true) (.fillCostQuery q) = .ok r := by
  obtain ⟨b, hb⟩ := Option.ne_none_iff_exists'.1 ((h.book_iff q.symbol).2 hsym)
  simp only [processContainer, fillCostQueryHandler, hb, orFail_some, ok_bind,
    (h.book_ok _ b hb).1.getFillCost_exact hq]
  exact ⟨_, rfl⟩

/-- The number of orders that rest in the books of the active symbols. -/
def resting (activeSymbols : List String) (me : MatchingEngine) : Nat :=
  ∑ symbol ∈ activeSymbols.toFinset, (me.limitOrderBooks symbol).elim 0 fun b => b.nodes.length

theorem resting_setBook {symbol : String} (hsym : symbol ∈ activeSymbols) {b : LimitOrderBook}
    (hb : me.limitOrderBooks symbol = some b) (b' : LimitOrderBook) :
    (me.setBook symbol b').resting activeSymbols + b.nodes.length = me.resting activeSymbols + b'.nodes.length := by
  have hmem : symbol ∈ activeSymbols.toFinset := List.mem_toFinset.2 hsym
  unfold resting
  rw [← Finset.add_sum_erase _ _ hmem, ← Finset.add_sum_erase (a := symbol) _ _ hmem]
  have hrest : ∀ symbol' ∈ activeSymbols.toFinset.erase symbol,
      ((me.setBook symbol b').limitOrderBooks symbol').elim 0 (fun b => b.nodes.length) =
        (me.limitOrderBooks symbol').elim 0 fun b => b.nodes.length := fun symbol' hs => by
    simp only [setBook, Function.update_of_ne (Finset.ne_of_mem_erase hs)]
  rw [Finset.sum_congr rfl hrest, hb]
  simp only [setBook, Function.update_self, Option.elim_some]
  omega

end MatchingEngine

namespace Exchange

/-- What a request may still cost. -/
def weight : Container → Nat
  | .newOrderSingle _ => 2
  | .cancelOrderRequest _ => 2
  | .fillCostQuery _ => 4
  | _ => 1

/-- A bound on the steps that the two processes can still take by themselves. -/
def backlog (cfg : Config) (s : Exchange) : Nat :=
  s.me.resting cfg.activeSymbols + (s.requests.map weight).sum + 3 * s.answers.length + s.responses.length

/-- The steps that need nothing from outside but stamps and ids. -/
def Internal : Event → Prop
  | .request _ _ _ => False
  | _ => True

/-- The requests of a run have the gateway's shape and name active symbols where the order manager does not check
it. -/
abbrev Addresses (cfg : Config) (_ : Exchange) (e : Event) : Prop := Fed e ∧ ∀ c ∈ request? e, c.Addressed cfg

variable {cfg : Config} {s s' : Exchange}

private theorem addresses_of_internal {e : Event} (he : Internal e) (s : Exchange) : Addresses cfg s e := by
  cases e with
  | request => exact he.elim
  | answer => exact ⟨trivial, fun _ hc => by cases hc⟩
  | matching => exact ⟨trivial, fun _ hc => by cases hc⟩
  | response => exact ⟨trivial, fun _ hc => by cases hc⟩

/-- What keeps the exchange going. -/
structure Live (cfg : Config) (s : Exchange) : Prop where
  agrees : s.Agrees cfg
  solvent : s.om.balanceChecker.Solvent s.history.accepted
  quotes : s.QuoteProtocol .exact
  addressed : ∀ c ∈ s.requests, c.Addressed cfg

/-- Whatever the order manager sends on is addressed as the request was. -/
private theorem addressed_move {e : Event} (h : ∀ c ∈ s.requests, c.Addressed cfg) (hg : Addresses cfg s e)
    (hm : Move cfg .exact s e s') : ∀ c ∈ s'.requests, c.Addressed cfg := by
  have hsend : ∀ c' : Container, c'.Addressed cfg → ∀ c ∈ s.requests ++ [c'], c.Addressed cfg := fun c' hc' c hc =>
    (List.mem_append.1 hc).elim (h c) fun hc => List.mem_singleton.1 hc ▸ hc'
  have htake : ∀ {c' : Container} {requests : List Container}, s.requests = c' :: requests →
      ∀ c ∈ requests, c.Addressed cfg := fun hr c hc => h c (hr ▸ List.mem_cons_of_mem _ hc)
  cases hm with
  | refused => exact h
  | rejected => exact h
  | forwarded o gw ids userId bc hr hnm => exact hsend _ fun hbid => absurd hbid hnm
  | queried o gw ids userId hr htype hside => exact hsend _ (hg.2 _ rfl ⟨htype, hside⟩)
  | cancelRefused => exact h
  | cancelForwarded c gw ids id =>
    refine hsend _ ?_
    rw [Container.Addressed, preprocessedCancel_symbol]
    exact hg.2 _ rfl
  | answerRefused => exact h
  | answerAccepted o gw cost answers ids bc hw ha hv => exact hsend _ fun _ => ⟨hv.symbol_active, hv.qty_pos⟩
  | matched o id b b' requests draw hr => exact htake hr
  | cancelled c id b b' requests draw hr => exact htake hr
  | cancelMissed c id requests draw hr => exact htake hr
  | quoted q b cost requests draw hr => exact htake hr
  | settled => exact h
  | confirmed => exact h
  | cancelFailed => exact h

private theorem live_of_reach {balances : BalanceChecker} (h₀ : balances.Nonneg)
    (h : Reach (step cfg .exact) (Addresses cfg) (start cfg balances) s) : s.Live cfg := by
  obtain ⟨ha, hs, hq, hr⟩ := invariant_of_moves
    (I := fun s => s.om.balanceChecker.Solvent s.history.accepted ∧ s.QuoteProtocol .exact ∧
    ∀ c ∈ s.requests, c.Addressed cfg)
    (fun s e hg => ⟨hg.1, counterFits_exact s e⟩) h
    ⟨⟨h₀, fun _ ho => (by cases ho)⟩, .start balances, fun _ hc => (by cases hc)⟩
    fun s e s' ha hi hg hm => ⟨ha.solvent_move hi.1 hm, hi.2.1.move hm, addressed_move hi.2.2 hg hm⟩
  exact ⟨ha, hs, hq, hr⟩

/-! ### No step is missing -/

namespace Live

/-- The parts of an order on its way that the engine checks. -/
private theorem newOrder_succeeds (h : s.Live cfg) (hcfg : cfg.NamesFit) {o : NewOrderSingle}
    (ho : .newOrderSingle o ∈ s.requests) (draw : Nat → Stamp) :
    ∃ r, s.me.processContainer .exact draw (fun _ => true) (.newOrderSingle o) = .ok r := by
  have hreq := mem_requested.2 ho
  have hacc := h.agrees.placed.mem_accepted hreq
  have had := h.agrees.placed.admitted o hacc
  have hengine := h.agrees.placed.engine_ok
  obtain ⟨b, hb⟩ := Option.ne_none_iff_exists'.1 ((hengine.book_iff o.symbol).2 had.symbol_active)
  have hid := (h.agrees.range o.id (h.agrees.accepted_known (List.mem_map.2 ⟨o, hacc, rfl⟩))).1
  have hprice : (o.enginePrice = marketAskOrderPrice ∨ 0 < o.enginePrice) ∧ o.enginePrice ≤ marketBidOrderPrice := by
    rw [NewOrderSingle.enginePrice]
    cases hp : o.price with
    | some p => exact ⟨Or.inr (had.price_range p hp).1, (had.price_range p hp).2⟩
    | none => cases o.side <;> decide
  have hsender := hcfg.users _ had.user
  refine hengine.newOrder_succeeds had.id_eq hb (h.agrees.placed.requested_absent o hreq _ b hb)
    ⟨hid, hprice.1, hprice.2, hsender.ne_empty⟩ had.qty_pos (fun f hf => ?_) draw
  -- the maker is an accepted order, so its sender is a user
  obtain ⟨hmem, -, -⟩ := (hengine.book_ok _ b hb).1.mem_fills had.qty_pos.le hf
  obtain ⟨maker, hmaker, hrests⟩ :=
    h.agrees.placed.resting _ b hb f.1 ((mem_nodes (o.taker o.id).side).2 (Or.inl hmem))
  exact ⟨hcfg.symbols _ had.symbol_active, hsender,
    hrests.sender_eq ▸ hcfg.users _ (h.agrees.placed.admitted maker hmaker).user⟩

/-- The engine can take the next request. -/
private theorem matching_enabled (h : s.Live cfg) (hcfg : cfg.NamesFit) (hne : s.requests ≠ []) (draw : Nat → Stamp) :
    ∃ s', s.step cfg .exact (.matching draw) = some s' := by
  obtain ⟨c, requests, hr⟩ := List.exists_cons_of_ne_nil hne
  have hmem : c ∈ s.requests := hr ▸ List.mem_cons_self
  obtain ⟨r, hp⟩ : ∃ r, s.me.processContainer .exact draw (fun _ => true) c = .ok r := by
    rcases h.agrees.placed.kinds c hmem with ⟨o, -, rfl⟩ | ⟨r, rfl⟩ | ⟨q, rfl⟩
    · exact h.newOrder_succeeds hcfg hmem draw
    · obtain ⟨id, hid, -⟩ := h.agrees.cancels r hmem
      exact h.agrees.placed.engine_ok.cancel_succeeds hid (h.addressed _ hmem) draw
    · exact h.agrees.placed.engine_ok.query_succeeds (h.addressed _ hmem).1 (h.addressed _ hmem).2 draw
  exact ⟨_, step_iff.2 (.matching c requests draw r.1 r.2 hr hp)⟩

/-- The order manager can take the answer that it waits for. -/
private theorem answer_enabled (h : s.Live cfg) {o : NewOrderSingle} {gw : Int} (hw : s.waiting = some (o, gw))
    {a : Container} {answers : List Container} (ha : s.answers = a :: answers) (ids : Nat → String) :
    ∃ s', s.step cfg .exact (.answer ids) = some s' := by
  obtain ⟨haw, -, -⟩ := h.agrees.waiting o gw hw
  obtain ⟨cost, rfl⟩ : ∃ cost, a = .fillCostResponse ⟨cost⟩ := by
    rcases h.quotes.asked o gw hw with ⟨hnil, -⟩ | ⟨-, b, cost, -, -, hone⟩
    · rw [ha] at hnil
      cases hnil
    · rw [ha] at hone
      cases hone
      exact ⟨cost, rfl⟩
  have hread : Readable s.om.balanceChecker o := by
    rw [Readable, haw.side_eq]
    exact h.solvent.nonneg _ _
  have hlimit : o.ordType = .limit → o.price.isSome = true := fun ht => by
    rw [haw.type_eq] at ht
    cases ht
  have hvalid : ∃ r, validateNewOrder cfg .exact s.om.balanceChecker cost o = .ok r :=
    validateNewOrder_total hlimit fun _ => hread
  have hone : OneReport gw o.senderCompId (finishRequest cfg .exact gw ids s.om (.newOrderSingle o) (.ok cost)) :=
    finishRequest_newOrder_total haw.id_eq hvalid
  obtain ⟨om, out, report, hrun, -⟩ := hone
  have hcomplete : completeRequest cfg .exact gw ids s.om o (.fillCostResponse ⟨cost⟩) = .ok (om, out) := hrun
  exact ⟨_, step_iff.2 (.answer o gw _ answers ids om out hw ha hcomplete)⟩

/-- The order manager can take the next response when it does not wait. -/
private theorem response_enabled (h : s.Live cfg) (hw : s.waiting = none) (hne : s.responses ≠ [])
    (ids : Nat → String) : ∃ s', s.step cfg .exact (.response ids) = some s' := by
  obtain ⟨c, responses, hr⟩ := List.exists_cons_of_ne_nil hne
  obtain ⟨⟨om, out⟩, hrun⟩ : ∃ r, handleResponse cfg .exact ids s.om c = .ok r := by
    rcases h.agrees.answered c (hr ▸ List.mem_cons_self) with ⟨t, rfl⟩ | ⟨r, rfl, hid⟩
    · exact h.agrees.handleResponse_trade h.solvent hr ids
    · exact h.agrees.handleResponse_cancel h.solvent hr hid ids
  exact ⟨_, step_iff.2 (.response c responses ids om out hw hr hrun)⟩

/-- Unless nothing is on its way, one of the processes can go on. -/
theorem goes_on (h : s.Live cfg) (hcfg : cfg.NamesFit) (draw : Nat → Stamp) (ids : Nat → String) :
    s.Quiescent ∨ ∃ e ∈ [Event.matching draw, .answer ids, .response ids], ∃ s', s.step cfg .exact e = some s' := by
  by_cases hreq : s.requests = []
  · cases hw : s.waiting with
    | some w =>
      -- the query was taken, so the answer is there
      obtain ⟨o, gw⟩ := w
      rcases h.quotes.asked o gw hw with ⟨-, ahead, hlast, -⟩ | ⟨-, b, cost, -, -, ha⟩
      · rw [hreq] at hlast
        simp at hlast
      · exact Or.inr ⟨_, by simp, h.answer_enabled hw ha ids⟩
    | none =>
      by_cases hresp : s.responses = []
      · exact Or.inl ⟨hw, hreq, (h.quotes.idle hw).1, hresp⟩
      · exact Or.inr ⟨_, by simp, h.response_enabled hw hresp ids⟩
  · exact Or.inr ⟨_, by simp, h.matching_enabled hcfg hreq draw⟩

end Live

/-! ### Every step costs something -/

private theorem backlog_lt {e : Event} (he : Internal e) (hag : s.Agrees cfg) (hm : Move cfg .exact s e s') :
    s'.backlog cfg < s.backlog cfg := by
  have hactive : ∀ {symbol b}, s.me.limitOrderBooks symbol = some b → symbol ∈ cfg.activeSymbols := fun hb =>
    (hag.placed.engine_ok.book_iff _).1 (by rw [hb]; exact Option.some_ne_none _)
  unfold backlog
  cases hm with
  | refused | rejected | forwarded | queried | cancelRefused | cancelForwarded => exact he.elim
  | answerRefused o gw cost answers ids hw ha =>
    simp only [ha, List.length_cons]
    omega
  | answerAccepted o gw cost answers ids bc hw ha =>
    simp only [accept, ha, List.map_append, List.map_cons, List.map_nil, List.sum_append, List.sum_cons,
      List.sum_nil, weight, List.length_cons]
    omega
  | matched o id b b' requests draw hr hid hb hfree ht hq hmt =>
    have hcount := MatchingEngine.resting_setBook (hactive hb) hb b'
    have hnodes := hmt.nodes_length hq.le
    simp only [hr, List.map_cons, List.sum_cons, weight, List.length_append, List.length_map, fillTrades,
      List.length_zipIdx]
    omega
  | cancelled c id b b' requests draw hr hid hb hix hc =>
    have hcount := MatchingEngine.resting_setBook (hactive hb) hb b'
    have hnodes := hc.nodes_length_le
    simp only [hr, List.map_cons, List.sum_cons, weight, List.length_append, List.length_cons, List.length_nil]
    omega
  | cancelMissed c id requests draw hr =>
    simp only [hr, List.map_cons, List.sum_cons, weight, List.length_append, List.length_cons, List.length_nil]
    omega
  | quoted q b cost requests draw hr =>
    simp only [hr, List.map_cons, List.sum_cons, weight, List.length_append, List.length_cons, List.length_nil]
    omega
  | settled t responses ids om hw hr =>
    simp only [hr, List.length_cons]
    omega
  | confirmed id clOrdId responses ids om hw hr =>
    simp only [hr, List.length_cons]
    omega
  | cancelFailed id clOrdId responses ids hw hr =>
    simp only [hr, List.length_cons]
    omega

/-- From every state of every run the exchange can be brought to rest without clients.  On the way no order of the
steps gets stuck before nothing is on its way any more, and no order of the steps goes on for longer than `backlog`
says. -/
theorem drains (hcfg : cfg.NamesFit) {balances : BalanceChecker} (h₀ : ∀ u tk x, balances.entry u tk = some x → 0 ≤ x)
    (h : Reach (step cfg .exact) (Addresses cfg) (start cfg balances) s) :
    (∃ es t, (∀ e ∈ es, Internal e) ∧ exec (step cfg .exact) s es = some t ∧ t.Quiescent) ∧
      ∀ es t, (∀ e ∈ es, Internal e) → exec (step cfg .exact) s es = some t → es.length ≤ s.backlog cfg ∧
        (t.Quiescent ∨ ∀ draw ids, ∃ e ∈ [Event.matching draw, .answer ids, .response ids], ∃ t',
          t.step cfg .exact e = some t') := by
  -- internal steps stay among the states that are reached, and lower the backlog
  have hdec : ∀ s e s', Reach (step cfg .exact) (Addresses cfg) (start cfg balances) s → Internal e →
      s.step cfg .exact e = some s' →
      Reach (step cfg .exact) (Addresses cfg) (start cfg balances) s' ∧ s'.backlog cfg < s.backlog cfg := by
    intro s e s' hs he hstep
    have hag := (live_of_reach h₀ hs).agrees
    have hg : Addresses cfg s e := addresses_of_internal he s
    exact ⟨.next hs hg hstep, backlog_lt he hag (hag.move_of_step hg.1 hstep)⟩
  refine ⟨exists_rest hdec (fun s hs => ?_) h, fun es t hes ht => ⟨exec_length_le hdec h hes ht, ?_⟩⟩
  · refine ((live_of_reach h₀ hs).goes_on hcfg (fun _ => .zero) fun _ => "").imp_right ?_
    rintro ⟨e, he, s', hstep⟩
    refine ⟨e, s', ?_, hstep⟩
    simp only [List.mem_cons, List.not_mem_nil, or_false] at he
    rcases he with rfl | rfl | rfl <;> trivial
  · have ht := h.trans_exec_of (fun e he s => addresses_of_internal (hes e he) s) ht
    exact or_iff_not_imp_left.2 fun hq draw ids => ((live_of_reach h₀ ht).goes_on hcfg draw ids).resolve_left hq

private theorem twoUsers_namesFit : twoUsers.NamesFit where
  symbols := by decide
  users u hu := by
    simp only [twoUsers] at hu
    split at hu
    · rename_i h
      subst h
      decide
    · split at hu
      · rename_i h
        subst h
        decide
      · exact absurd rfl hu

/-- An ask and a bid for it are on their way to the engine. -/
theorem drains_sampleOrders : ∃ s :
    Exchange, Reach (step twoUsers .exact) (Addresses twoUsers) (start twoUsers twoBalances) s ∧
    s.requests.length = 2 ∧ ∃ es t, (∀ e ∈ es, Internal e) ∧ exec (step twoUsers .exact) s es = some t ∧
    t.Quiescent := by
  have hrun : (execIf (step twoUsers .exact) (Addresses twoUsers) (start twoUsers twoBalances)
      [.request (.newOrderSingle sampleAsk) 0 noIds, .request (.newOrderSingle sampleBid) 0 noIds]).any
      (fun s => decide (s.requests.length = 2)) = true := by decide +kernel
  obtain ⟨s, hreach, h⟩ := Reach.exists_of_execIf hrun
  exact ⟨s, hreach, of_decide_eq_true h, (drains twoUsers_namesFit twoBalances_nonneg hreach).1⟩

end Exchange

end Elsa
