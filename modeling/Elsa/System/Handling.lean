import Elsa.System.Agreement

/-!
# Forwarded orders and cancellations in the engine

What the engine does with a limit order and with a cancellation that the order manager has forwarded, in every state
of every run and for any arithmetic.  All that is needed of the run is `Serves`: the books are consistent and the
prices on their way are positive and fit an `int`.

A limit order is taken for a market order when its price is the reserved one, and then its remainder is dropped
(`remainderRests_iff`).  A cancellation looks in the book that the client names, so it serves its order exactly when
no other book holds it (`cancelServed_iff`).
-/

namespace Elsa

open Base LimitOrderBook

namespace LimitOrderBook

variable {b b' : LimitOrderBook} {t : Taker} {q : Int}

/-- What rests on one side. -/
def depth (b : LimitOrderBook) (s : Side) : Int := ((b.queue s).map fun n => n.order.quantity).sum

/-- A bid at the reserved price reaches every ask. -/
private theorem Ok.remainder_reserved_bid (h : b.Ok) (hs : t.side = .bid) (hp : t.price = marketBidOrderPrice)
    (hq : 0 ≤ q) : b.remainder t q = 0 ↔ q ≤ b.depth .ask := by
  have hall : t.reached (b.queue .ask) = b.queue .ask := by
    refine List.takeWhile_eq_self_iff.2 fun n hn => decide_eq_true ?_
    have := (h.node_ok hn).2.2
    unfold Taker.Crosses
    rw [hs, hp]
    exact this.le
  have hpos : ∀ n ∈ b.queue .ask, 0 < nodeLots.cap n := fun n hn => (h.node_ok hn).1.quantity_pos
  have hsum : ((b.queue .ask).map nodeLots.cap).sum = b.depth .ask := rfl
  rw [remainder, hs, show Side.bid.opposite = .ask from rfl, hall, nodeLots.unmet_eq hq hpos, hsum]
  split <;> omega

/-- An ask at the reserved price reaches no bid. -/
private theorem Ok.remainder_reserved_ask (h : b.Ok) (hs : t.side = .ask) (hp : t.price = marketBidOrderPrice) :
    b.remainder t q = q := by
  have hnone : t.reached (b.queue .bid) = [] := by
    cases hb : b.queue .bid with
    | nil => rfl
    | cons n ns =>
      have hlt := (h.node_ok (s := .bid) (n := n) (by rw [hb]; simp)).2.2
      have hcross : ¬ t.Crosses n.order.price := by
        unfold Taker.Crosses
        rw [hs, hp]
        exact hlt.not_ge
      rw [Taker.reached, List.takeWhile_cons, decide_eq_false hcross]
      rfl
  rw [remainder, hs, show Side.ask.opposite = .bid from rfl, hnone]
  rfl

/-- A remainder is kept unless the price is the reserved one, and then only a bid that is filled completely has
none. -/
private theorem Ok.keeps_iff (h : b.Ok) (hp : 0 < t.price) (hq : 0 < q) :
    (0 < b.remainder t q → b.Rests t q) ↔ t.price ≠ marketBidOrderPrice ∨ (t.side = .bid ∧ q ≤ b.depth .ask) := by
  have hask : t.price ≠ marketAskOrderPrice := by
    rw [marketAskOrderPrice]
    omega
  by_cases hprice : t.price = marketBidOrderPrice
  · have hnot : ¬ b.Rests t q := fun hr => hr.2.1 hprice
    have hnn : 0 ≤ b.remainder t q := nodeLots.unmet_nonneg hq.le _
    have hzero : (0 < b.remainder t q → b.Rests t q) ↔ b.remainder t q = 0 := by
      constructor
      · intro himp
        by_contra hne
        exact hnot (himp (by omega))
      · intro h0 hlt
        omega
    rw [hzero, or_iff_right (not_not.2 hprice)]
    cases hside : t.side with
    | bid =>
      rw [h.remainder_reserved_bid hside hprice hq.le]
      exact (and_iff_right rfl).symm
    | ask =>
      rw [h.remainder_reserved_ask hside hprice]
      refine iff_of_false hq.ne' ?_
      rintro ⟨hbid, -⟩
      cases hbid
  · exact iff_of_true (fun hrem => ⟨hrem, hprice, hask⟩) (Or.inl hprice)

/-- The remainder is found under the id of the order, or the book does not know the id. -/
theorem Matched.lookup (hm : b.Matched t q b') (hok : b'.Ok) (hfree : b.orderIdMap t.orderId = none) :
    (b'.orderIdMap t.orderId).bind b'.deref = if b.Rests t q then some (b.restingNode t q) else none := by
  rw [hm.index_eq]
  by_cases hr : b.Rests t q
  · have hmem : b.restingNode t q ∈ b'.nodes := by
      refine (LimitOrderBook.mem_nodes t.side).2 (Or.inr ?_)
      rw [hm.near_queue, if_pos hr]
      exact (enqueue_perm _ _ _ _).mem_iff.2 List.mem_cons_self
    rw [if_pos ⟨hr, rfl⟩, if_pos hr]
    exact hok.deref_eq hmem
  · rw [if_neg (fun hc => hr hc.1), if_neg hr, eraseFilled_apply, hfree, ite_self]
    rfl

end LimitOrderBook

namespace Exchange

variable {cfg : Config} {A : Arith} {s s' : Exchange} {balances : BalanceChecker}

/-- What the engine relies on. -/
structure Serves (cfg : Config) (s : Exchange) : Prop where
  engine_ok : s.me.Ok cfg.activeSymbols
  kinds : ∀ c ∈ s.requests, (∃ o, c = .newOrderSingle o) ∨ (∃ r, c = .cancelOrderRequest r) ∨
    ∃ q, c = .fillCostQuery q
  shaped : ∀ o, .newOrderSingle o ∈ s.requests → (o.ordType = .limit ↔ o.price.isSome = true)
  priced : ∀ o, .newOrderSingle o ∈ s.requests → ∀ p, o.price = some p → 0 < p ∧ p ≤ marketBidOrderPrice
  waiting : ∀ o gw, s.waiting = some (o, gw) → o.ordType = .market ∧ o.price = none

theorem start_serves : (start cfg balances).Serves cfg where
  engine_ok := MatchingEngine.new_ok _
  kinds _ h := by cases h
  shaped _ h := by cases h
  priced _ h := by cases h
  waiting _ _ h := by cases h

namespace Serves

theorem move_of_step (h : s.Serves cfg) {e : Event} (hfed : Fed e) (hs : s.step cfg A e = some s') :
    Move cfg A s e s' := by
  refine Exchange.move_of_step h.engine_ok hfed (fun o ho => ?_) h.kinds hs
  unfold NewOrderSingle.enginePrice
  cases hp : o.price with
  | some p => exact (h.priced o ho p hp).2
  | none => cases o.side <;> decide

/-- A request that is not a new order is sent. -/
theorem send (h : s.Serves cfg) {c : Container} (hc : (∃ r, c = .cancelOrderRequest r) ∨ ∃ q, c = .fillCostQuery q) :
    Serves cfg { s with requests := s.requests ++ [c] } := by
  have hold : ∀ {o}, .newOrderSingle o ∈ s.requests ++ [c] → .newOrderSingle o ∈ s.requests := by
    intro o ho
    rcases List.mem_append.1 ho with ho | ho
    · exact ho
    · rw [← List.mem_singleton.1 ho] at hc
      rcases hc with ⟨r, hr⟩ | ⟨q, hq⟩
      · cases hr
      · cases hq
  refine ⟨h.engine_ok, fun d hd => ?_, fun o ho => h.shaped o (hold ho), fun o ho => h.priced o (hold ho), h.waiting⟩
  rcases List.mem_append.1 hd with hd | hd
  · exact h.kinds d hd
  · rw [List.mem_singleton.1 hd]
    exact Or.inr hc

/-- A new order is accepted. -/
theorem accept (h : s.Serves cfg) {o : NewOrderSingle} (bc : BalanceChecker)
    (hshape : o.ordType = .limit ↔ o.price.isSome = true)
    (hprice : ∀ p, o.price = some p → 0 < p ∧ p ≤ marketBidOrderPrice) : (s.accept o bc).Serves cfg := by
  have hcases : ∀ {o'}, .newOrderSingle o' ∈ s.requests ++ [.newOrderSingle o] → .newOrderSingle o' ∈ s.requests ∨
      o' = o := by
    intro o' ho'
    rcases List.mem_append.1 ho' with ho' | ho'
    · exact Or.inl ho'
    · cases List.mem_singleton.1 ho'
      exact Or.inr rfl
  refine ⟨h.engine_ok, fun d hd => ?_, fun o' ho' => ?_, fun o' ho' => ?_, h.waiting⟩
  · rcases List.mem_append.1 hd with hd | hd
    · exact h.kinds d hd
    · exact Or.inl ⟨o, List.mem_singleton.1 hd⟩
  · rcases hcases ho' with ho' | rfl
    · exact h.shaped o' ho'
    · exact hshape
  · rcases hcases ho' with ho' | rfl
    · exact h.priced o' ho'
    · exact hprice

/-- The order manager changes only its own data. -/
private theorem of_manager (h : s.Serves cfg) (om : OrderManager) : Serves cfg { s with om } :=
  ⟨h.engine_ok, h.kinds, h.shaped, h.priced, h.waiting⟩

/-- The engine takes a request. -/
theorem take (h : s.Serves cfg) {c : Container} {requests : List Container} (hr : s.requests = c :: requests)
    {me : MatchingEngine} (hok : me.Ok cfg.activeSymbols) (answers responses : List Container) :
    Serves cfg { s with me, requests, answers, responses } := by
  have hmem : ∀ {d}, d ∈ requests → d ∈ s.requests := fun hd => by rw [hr]; exact List.mem_cons_of_mem _ hd
  exact ⟨hok, fun d hd => h.kinds d (hmem hd), fun o ho => h.shaped o (hmem ho), fun o ho => h.priced o (hmem ho),
    h.waiting⟩

theorem move (h : s.Serves cfg) {e : Event} (hm : Move cfg A s e s') : s'.Serves cfg := by
  cases hm with
  | refused o gw ids hw => exact h.of_manager _
  | rejected o gw ids userId hr => exact h.of_manager _
  | forwarded o gw ids userId bc hr hnm hv =>
    obtain ⟨-, hshape, -, -, hprice⟩ := hr.shaped
    refine accept (s := s.register A o userId gw) (h.of_manager _) bc hshape fun p hp => ⟨hv.price_pos p hp, ?_⟩
    rw [show o.price = some p from hp] at hprice
    exact (of_decide_eq_true hprice).2
  | queried o gw ids userId hr htype hside =>
    have hsent := (h.of_manager (s.register A o userId gw).om).send (c := .fillCostQuery ⟨o.symbol, o.orderQty, .ask⟩)
      (Or.inr ⟨_, rfl⟩)
    refine ⟨hsent.engine_ok, hsent.kinds, hsent.shaped, hsent.priced, ?_⟩
    rintro o' gw' he
    cases he
    obtain ⟨-, hshape, -⟩ := hr.shaped
    exact ⟨htype, NewOrderSingle.price_eq_none hshape htype⟩
  | cancelRefused c gw ids hw => exact h
  | cancelForwarded c gw ids id hw hid hinfo => exact h.send (Or.inl ⟨_, rfl⟩)
  | answerRefused o gw cost answers ids hw ha =>
    exact ⟨h.engine_ok, h.kinds, h.shaped, h.priced, fun _ _ he => by cases he⟩
  | answerAccepted o gw cost answers ids bc hw ha hv =>
    obtain ⟨htype, hnone⟩ := h.waiting o gw hw
    refine accept (s := { s with waiting := none, answers })
      ⟨h.engine_ok, h.kinds, h.shaped, h.priced, fun _ _ he => by cases he⟩ bc ?_ ?_
    · rw [htype, hnone]; simp
    · rw [hnone]; nofun
  | matched o id b b' requests draw hr hid hb hfree ht hq hmt hok => exact h.take hr hok _ _
  | cancelled c id b b' requests draw hr hid hb hix hc hok => exact h.take hr hok _ _
  | cancelMissed c id requests draw hr hid => exact h.take hr h.engine_ok _ _
  | quoted q b cost requests draw hr hb hcost => exact h.take hr h.engine_ok _ _
  | settled t responses ids om hw hr hu => exact ⟨h.engine_ok, h.kinds, h.shaped, h.priced, h.waiting⟩
  | confirmed id clOrdId responses ids om hw hr hu => exact ⟨h.engine_ok, h.kinds, h.shaped, h.priced, h.waiting⟩
  | cancelFailed id clOrdId responses ids hw hr => exact ⟨h.engine_ok, h.kinds, h.shaped, h.priced, h.waiting⟩

end Serves

/-- The states that runs pass through, fed with requests of the gateway's shape, for any arithmetic. -/
abbrev FedReachable (cfg : Config) (A : Arith) (balances : BalanceChecker) : Exchange → Prop :=
  Reach (step cfg A) (fun _ e => Fed e) (start cfg balances)

theorem serves_of_reachable (h : FedReachable cfg A balances s) : s.Serves cfg :=
  h.invariant start_serves fun _ _ _ hi hfed hs => hi.move (hi.move_of_step hfed hs)

/-! ### Limit orders -/

/-- What the trades of a step leave of an order. -/
def unfilled (s s' : Exchange) (o : NewOrderSingle) : Int :=
  o.orderQty - amountOf (s'.responses.drop s.responses.length) o.id

/-- What a step leaves of an order is found in its book under its id, at its limit. -/
def RemainderRests (s s' : Exchange) (o : NewOrderSingle) : Prop :=
  0 < unfilled s s' o → ∃ b n price, s'.me.limitOrderBooks o.symbol = some b ∧ o.price = some price ∧
    (b.orderIdMap o.id).bind b.deref = some n ∧ n.order = ⟨o.id, price, unfilled s s' o, o.side, o.senderCompId⟩

/-- The asks in the book of an order add up to its quantity. -/
def AsksSuffice (s : Exchange) (o : NewOrderSingle) : Prop :=
  ∃ b, s.me.limitOrderBooks o.symbol = some b ∧ o.orderQty ≤ b.depth .ask

/-- What a match leaves of the taker is its remainder. -/
private theorem unfilled_matched {b : LimitOrderBook} (hbok : b.Ok) {o : NewOrderSingle}
    (hfree : b.orderIdMap o.id = none) (hq : 0 < o.orderQty) (draw : Nat → Stamp) (hs : s'.responses = s.responses ++
      (fillTrades draw o.symbol (o.taker o.id) (b.fills (o.taker o.id) o.orderQty)).map .trade) :
    unfilled s s' o = b.remainder (o.taker o.id) o.orderQty := by
  have hmakers : totalAt (fun f => nodeLots.key f.1) Prod.snd (b.fills (o.taker o.id) o.orderQty) o.id = 0 := by
    refine totalAt_eq_zero fun f hf => ?_
    exact hbok.not_resting hfree f.1 ((mem_nodes o.side).2 (Or.inl (hbok.mem_fills hq.le hf).1))
  have hkey : (o.taker o.id).orderId = o.id := rfl
  rw [unfilled, hs, List.drop_left, amountOf_fillTrades, hmakers, if_pos hkey, sum_fills]
  omega

/-- The condition on the price, in terms of the taker and the book. -/
private theorem reserved_iff {b : LimitOrderBook} {o : NewOrderSingle} (hb : s.me.limitOrderBooks o.symbol = some b)
    {price : Int} (hprice : o.price = some price) :
    (o.price ≠ some 2147483647 ∨ (o.side = .bid ∧ s.AsksSuffice o)) ↔
      ((o.taker o.id).price ≠ marketBidOrderPrice ∨ ((o.taker o.id).side = .bid ∧ o.orderQty ≤ b.depth .ask)) := by
  have htaker : (o.taker o.id).price = price := by
    show o.enginePrice = price
    rw [NewOrderSingle.enginePrice, hprice]
    rfl
  refine or_congr ?_ (and_congr_right fun _ => ⟨?_, fun hle => ⟨b, hb, hle⟩⟩)
  · rw [hprice, htaker]
    exact not_congr Option.some_inj
  · rintro ⟨b₁, hb₁, hle⟩
    rw [hb] at hb₁
    cases hb₁
    exact hle

/-- The remainder of a limit order rests unless its price is the reserved one, and then only a bid that is filled
completely leaves nothing behind. -/
theorem remainderRests_iff (h : FedReachable cfg A balances s) {o : NewOrderSingle} {requests : List Container}
    (hr : s.requests = .newOrderSingle o :: requests) (hlimit : o.ordType = .limit) {draw : Nat → Stamp}
    (hs : s.step cfg A (.matching draw) = some s') :
    RemainderRests s s' o ↔ o.price ≠ some 2147483647 ∨ (o.side = .bid ∧ s.AsksSuffice o) := by
  have hserves := serves_of_reachable h
  have hmem : .newOrderSingle o ∈ s.requests := by rw [hr]; simp
  obtain ⟨price, hprice⟩ := Option.isSome_iff_exists.1 ((hserves.shaped o hmem).1 hlimit)
  have hengine : o.enginePrice = price := by rw [NewOrderSingle.enginePrice, hprice]; rfl
  have hpos : 0 < o.enginePrice := by
    rw [hengine]
    exact (hserves.priced o hmem price hprice).1
  cases hserves.move_of_step (e := .matching draw) trivial hs with
  | matched o' id b b' requests' draw hr' hid hb hfree ht hq hm hok =>
    rw [hr] at hr'
    cases hr'
    obtain rfl : o.id = id := by rw [NewOrderSingle.id, hid]; rfl
    have hbok := (hserves.engine_ok.book_ok _ b hb).1
    have hbook : (s.me.setBook o.symbol b').limitOrderBooks o.symbol = some b' := Function.update_self ..
    have hlookup : (b'.orderIdMap o.id).bind b'.deref = _ := hm.lookup (hok.book_ok _ b' hbook).1 hfree
    rw [reserved_iff hb hprice, ← hbok.keeps_iff hpos hq]
    unfold RemainderRests
    rw [unfilled_matched hbok hfree hq draw rfl]
    refine imp_congr_right fun hrem => ⟨?_, fun hrests => ?_⟩
    · rintro ⟨b₁, n, p, hb₁, -, hn, -⟩
      rw [hbook] at hb₁
      cases hb₁
      by_contra hnot
      rw [hlookup, if_neg hnot] at hn
      cases hn
    · refine ⟨b', b.restingNode (o.taker o.id) o.orderQty, price, hbook, hprice, ?_, ?_⟩
      · rw [hlookup, if_pos hrests]
      · rw [restingNode, ← hengine]
        rfl
  | cancelled c id b b' requests' draw hr' => rw [hr] at hr'; cases hr'
  | cancelMissed c id requests' draw hr' => rw [hr] at hr'; cases hr'
  | quoted q b cost requests' draw hr' => rw [hr] at hr'; cases hr'

/-- An ask at the largest price. -/
def topAsk : NewOrderSingle := { sampleAsk with price := some 2147483647 }

/-- `ann`'s bid for four rests when the engine takes `bob`'s ask; six shares of it are left. -/
theorem remainderRests_sampleAsk : ∃ s s' : Exchange, FedReachable twoUsers .machine twoBalances s ∧
    s.requests = [.newOrderSingle (sampleAsk.assigned 1)] ∧
    s.step twoUsers .machine (.matching zeroStamps) = some s' ∧ unfilled s s' (sampleAsk.assigned 1) = 6 ∧
    RemainderRests s s' (sampleAsk.assigned 1) := by
  have hrun : (execIf (step twoUsers .machine) (fun _ e => Fed e) (start twoUsers twoBalances)
      [.request (.newOrderSingle sampleBid) 0 noIds, .request (.newOrderSingle sampleAsk) 0 noIds,
        .matching zeroStamps]).any (fun s =>
      decide (s.requests = [.newOrderSingle (sampleAsk.assigned 1)]) &&
        (s.step twoUsers .machine (.matching zeroStamps)).any fun s' =>
          decide (unfilled s s' (sampleAsk.assigned 1) = 6)) = true := by decide +kernel
  obtain ⟨s, hreach, h⟩ := Reach.exists_of_execIf hrun
  rw [Bool.and_eq_true, decide_eq_true_eq] at h
  obtain ⟨hreq, h⟩ := h
  obtain ⟨s', hs', hleft⟩ := (Option.any_eq_true _ _).1 h
  have hne : (sampleAsk.assigned 1).price ≠ some 2147483647 := by decide
  exact ⟨s, s', hreach, hreq, hs', of_decide_eq_true hleft, (remainderRests_iff hreach hreq rfl hs').2 (Or.inl hne)⟩

/-- `bob` asks for the largest price; the ten shares neither trade nor rest. -/
theorem remainder_dropped : ∃ s s' : Exchange, FedReachable twoUsers .machine twoBalances s ∧
    s.requests = [.newOrderSingle (topAsk.assigned 0)] ∧ s.step twoUsers .machine (.matching zeroStamps) = some s' ∧
    ¬ RemainderRests s s' (topAsk.assigned 0) := by
  have hrun : (execIf (step twoUsers .machine) (fun _ e => Fed e) (start twoUsers twoBalances)
      [.request (.newOrderSingle topAsk) 0 noIds]).any (fun s =>
        decide (s.requests = [.newOrderSingle (topAsk.assigned 0)]) &&
        (s.step twoUsers .machine (.matching zeroStamps)).any
          (fun s' => decide (unfilled s s' (topAsk.assigned 0) = 10) &&
          decide ((s'.me.limitOrderBooks "GME").bind (fun b => (b.orderIdMap 0).bind b.deref) = none))) = true := by
    decide +kernel
  obtain ⟨s, hreach, h⟩ := Reach.exists_of_execIf hrun
  rw [Bool.and_eq_true, decide_eq_true_eq, Option.any_eq_true] at h
  obtain ⟨hreq, s', hs', h⟩ := h
  rw [Bool.and_eq_true, decide_eq_true_eq, decide_eq_true_eq] at h
  refine ⟨s, s', hreach, hreq, hs', fun hrests => ?_⟩
  obtain ⟨b, n, price, hb, -, hn, -⟩ := hrests (by rw [h.1]; decide)
  have hb' : s'.me.limitOrderBooks "GME" = some b := hb
  rw [hb', Option.bind_some] at h
  exact absurd (h.2.symm.trans hn) (by simp)

/-! ### Cancellations -/

/-- A cancellation is confirmed, and its order removed, exactly when the order rests in some book, and it is refused
only for an order that rests nowhere. -/
structure CancelServed (cfg : Config) (A : Arith) (s : Exchange) (c : CancelOrderRequest) (id : Int)
    (draw : Nat → Stamp) :
    Prop where
  confirmed_iff : (∃ s', s.step cfg A (.matching draw) = some s' ∧
    s'.responses = s.responses ++ [.cancelOrderResponse ⟨id, c.clOrdId, true⟩] ∧ s'.me.Absent id) ↔ ¬ s.me.Absent id
  refused : ∀ s', s.step cfg A (.matching draw) = some s' →
    s'.responses = s.responses ++ [.cancelOrderResponse ⟨id, c.clOrdId, false⟩] → s.me.Absent id

section cancel

variable {c : CancelOrderRequest} {requests : List Container} {id : Int} {b : LimitOrderBook} {draw : Nat → Stamp}

private theorem step_cancel_unknown (hr : s.requests = .cancelOrderRequest c :: requests)
    (hb : s.me.limitOrderBooks c.symbol = none) : s.step cfg A (.matching draw) = none := by
  have herr : ∃ f, s.me.cancelOrderHandler (fun _ => true) c = .error f := by
    unfold MatchingEngine.cancelOrderHandler
    cases hid : c.orderId with
    | none => exact ⟨_, rfl⟩
    | some id => rw [hb]; exact ⟨_, rfl⟩
  obtain ⟨f, hf⟩ := herr
  simp only [step, hr, MatchingEngine.processContainer, hf]

private theorem step_cancel_missing (hr : s.requests = .cancelOrderRequest c :: requests) (hid : c.orderId = some id)
    (hb : s.me.limitOrderBooks c.symbol = some b) (hix : b.orderIdMap id = none) :
    s.step cfg A (.matching draw) =
      some { s with requests, responses := s.responses ++ [.cancelOrderResponse ⟨id, c.clOrdId, false⟩] } := by
  have hrun : s.me.cancelOrderHandler (fun _ => true) c =
      .ok (s.me, ⟨[.cancelOrderResponse ⟨id, c.clOrdId, false⟩], []⟩) := by
    simp only [MatchingEngine.cancelOrderHandler, hid, hb, orFail_some, ok_bind, orderIdExists, hix]
    rfl
  simp only [step, hr, MatchingEngine.processContainer, hrun, List.append_nil]

variable (cfg A draw) in
private theorem step_cancel_held (hbok : b.Ok) (hr : s.requests = .cancelOrderRequest c :: requests)
    (hid : c.orderId = some id) (hb : s.me.limitOrderBooks c.symbol = some b) (hix : b.orderIdMap id ≠ none) :
    ∃ b', b.Cancelled id b' ∧ s.step cfg A (.matching draw) =
      some { s with me := s.me.setBook c.symbol b', requests
                    responses := s.responses ++ [.cancelOrderResponse ⟨id, c.clOrdId, true⟩] } := by
  obtain ⟨b', heq, hc⟩ := hbok.cancelOrder_eq hix
  have hex : b.orderIdExists id = true := Option.isSome_iff_ne_none.2 hix
  have hrun : s.me.cancelOrderHandler (fun _ => true) c =
      .ok (s.me.setBook c.symbol b', ⟨[.cancelOrderResponse ⟨id, c.clOrdId, true⟩], []⟩) := by
    simp only [MatchingEngine.cancelOrderHandler, hid, hb, orFail_some, ok_bind, hex, heq]
    rfl
  exact ⟨b', hc, by simp only [step, hr, MatchingEngine.processContainer, hrun, List.append_nil]⟩

/-- What the engine does with a cancellation. -/
private theorem cancel_of_step (hserves : s.Serves cfg) (hr : s.requests = .cancelOrderRequest c :: requests)
    (hid : c.orderId = some id) (hs : s.step cfg A (.matching draw) = some s') :
    ∃ b, s.me.limitOrderBooks c.symbol = some b ∧
      (b.orderIdMap id = none ∧ s'.responses = s.responses ++ [.cancelOrderResponse ⟨id, c.clOrdId, false⟩] ∨
        b.orderIdMap id ≠ none ∧ s'.responses = s.responses ++ [.cancelOrderResponse ⟨id, c.clOrdId, true⟩] ∧
          ∃ b', b.Cancelled id b' ∧ s'.me = s.me.setBook c.symbol b') := by
  cases hb : s.me.limitOrderBooks c.symbol with
  | none =>
    rw [step_cancel_unknown hr hb] at hs
    cases hs
  | some b =>
    refine ⟨b, rfl, ?_⟩
    by_cases hix : b.orderIdMap id = none
    · rw [step_cancel_missing hr hid hb hix] at hs
      cases hs
      exact Or.inl ⟨hix, rfl⟩
    · obtain ⟨b', hc, hstep⟩ := step_cancel_held cfg A draw (hserves.engine_ok.book_ok _ b hb).1 hr hid hb hix
      rw [hstep] at hs
      cases hs
      exact Or.inr ⟨hix, rfl, b', hc, rfl⟩

/-- A confirmed cancellation removes its order from all books exactly when no other book holds it. -/
private theorem absent_setBook_iff {me : MatchingEngine} {b' : LimitOrderBook} {symbol : String}
    (hc : b.Cancelled id b') :
    (me.setBook symbol b').Absent id ↔
      ∀ symbol' b₁, me.limitOrderBooks symbol' = some b₁ → b₁.orderIdMap id ≠ none → symbol' = symbol := by
  constructor
  · intro habs symbol' b₁ hb₁ hix
    by_contra hne
    refine hix (habs symbol' b₁ ?_)
    rw [MatchingEngine.limitOrderBooks_setBook, if_neg hne, hb₁]
  · intro honly symbol' b₁ hb₁
    rw [MatchingEngine.limitOrderBooks_setBook] at hb₁
    split at hb₁
    · cases hb₁
      rw [hc.index_eq, eraseId, Function.update_self]
    · next hne =>
      by_contra hix
      exact hne (honly symbol' b₁ hb₁ hix)

/-- A cancellation serves its order exactly when no book but the one it names holds the order. -/
theorem cancelServed_iff (h : FedReachable cfg A balances s) (hr : s.requests = .cancelOrderRequest c :: requests)
    (hid : c.orderId = some id) : s.CancelServed cfg A c id draw ↔
      ∀ symbol b, s.me.limitOrderBooks symbol = some b → b.orderIdMap id ≠ none → symbol = c.symbol := by
  have hserves := serves_of_reachable h
  constructor
  · intro hserved symbol b hb hix
    obtain ⟨s', hs', hresp, habs⟩ := hserved.confirmed_iff.2 fun habs => hix (habs symbol b hb)
    obtain ⟨b₁, -, ⟨-, hresp'⟩ | ⟨-, -, b', hc, hme⟩⟩ := cancel_of_step hserves hr hid hs'
    · simp [hresp'] at hresp
    · rw [hme, absent_setBook_iff hc] at habs
      exact habs symbol b hb hix
  · intro honly
    refine ⟨⟨?_, fun hlive => ?_⟩, fun s' hs' hresp symbol b hb => ?_⟩
    · rintro ⟨s', hs', hresp, -⟩ habs
      obtain ⟨b, hb, ⟨-, hresp'⟩ | ⟨hix, -⟩⟩ := cancel_of_step hserves hr hid hs'
      · simp [hresp'] at hresp
      · exact hix (habs c.symbol b hb)
    · obtain ⟨symbol, b, hb, hix⟩ : ∃ symbol b, s.me.limitOrderBooks symbol = some b ∧ b.orderIdMap id ≠ none := by
        by_contra hcon
        refine hlive fun symbol b hb => ?_
        by_contra hix
        exact hcon ⟨symbol, b, hb, hix⟩
      obtain rfl := honly symbol b hb hix
      obtain ⟨b', hc, hstep⟩ := step_cancel_held cfg A draw (hserves.engine_ok.book_ok _ b hb).1 hr hid hb hix
      exact ⟨_, hstep, rfl, (absent_setBook_iff hc).2 honly⟩
    · by_contra hix
      obtain rfl := honly symbol b hb hix
      obtain ⟨b₁, hb₁, ⟨hix₁, -⟩ | ⟨-, hresp', -⟩⟩ := cancel_of_step hserves hr hid hs'
      · rw [hb] at hb₁
        cases hb₁
        exact hix hix₁
      · simp [hresp'] at hresp

end cancel

/-- A second active symbol. -/
def twoSymbols : Config := { twoUsers with activeSymbols := ["GME", "AMC"], symbols_nulFree := by decide }

/-- `bob`'s cancellation of the ask, with any symbol. -/
def cancelNaming (symbol : String) : CancelOrderRequest := { sampleCancel with symbol }

/-- `bob`'s ask rests and the cancellation is on its way. -/
def cancelling (symbol : String) : List Event :=
  [.request (.newOrderSingle sampleAsk) 0 noIds, .matching zeroStamps,
    .request (.cancelOrderRequest (cancelNaming symbol)) 0 noIds]

theorem cancelServed_sampleAsk : ∃ s : Exchange, FedReachable twoSymbols .machine twoBalances s ∧
    s.requests = [.cancelOrderRequest { cancelNaming "GME" with orderId := some 0 }] ∧ ¬ s.me.Absent 0 ∧
    s.CancelServed twoSymbols .machine { cancelNaming "GME" with orderId := some 0 } 0 zeroStamps := by
  have hrun : (execIf (step twoSymbols .machine) (fun _ e => Fed e) (start twoSymbols twoBalances)
      (cancelling "GME")).any
      (fun s => decide (s.requests = [.cancelOrderRequest { cancelNaming "GME" with orderId := some 0 }] ∧
        (s.me.limitOrderBooks "GME").bind (fun b => b.orderIdMap 0) = some 0 ∧
        (s.me.limitOrderBooks "AMC").bind (fun b => b.orderIdMap 0) = none)) = true := by decide +kernel
  obtain ⟨s, hreach, h⟩ := Reach.exists_of_execIf hrun
  obtain ⟨hreq, hheld, hother⟩ := of_decide_eq_true h
  obtain ⟨b, hb, hix⟩ := Option.bind_eq_some_iff.1 hheld
  refine ⟨s, hreach, hreq, fun habs => ?_, (cancelServed_iff hreach hreq rfl).2 fun symbol b₁ hb₁ hix₁ => ?_⟩
  · rw [habs _ b hb] at hix
    cases hix
  · -- there are only two books
    have hactive : symbol ∈ twoSymbols.activeSymbols :=
      ((serves_of_reachable hreach).engine_ok.book_iff symbol).1 (by rw [hb₁]; simp)
    rcases List.mem_cons.1 hactive with rfl | hactive
    · rfl
    · rw [List.mem_singleton.1 hactive] at hb₁
      rw [hb₁, Option.bind_some] at hother
      exact absurd hother hix₁

/-- `bob` cancels the ask under the other symbol: the engine refuses although the order rests. -/
theorem cancel_refused_for_live_order : ∃ s : Exchange, FedReachable twoSymbols .machine twoBalances s ∧
    s.requests = [.cancelOrderRequest { cancelNaming "AMC" with orderId := some 0 }] ∧
    (s.om.orderInfoMap 0).map OrderInfo.senderCompId = some "bob" ∧ ¬ s.me.Absent 0 ∧
    ¬ s.CancelServed twoSymbols .machine { cancelNaming "AMC" with orderId := some 0 } 0 zeroStamps := by
  have hrun : (execIf (step twoSymbols .machine) (fun _ e => Fed e) (start twoSymbols twoBalances)
      (cancelling "AMC")).any
      (fun s => decide (s.requests = [.cancelOrderRequest { cancelNaming "AMC" with orderId := some 0 }] ∧
        (s.om.orderInfoMap 0).map OrderInfo.senderCompId = some "bob" ∧
        (s.me.limitOrderBooks "GME").bind (fun b => b.orderIdMap 0) = some 0) &&
        (s.step twoSymbols .machine (.matching zeroStamps)).any (fun s' =>
          decide (s'.responses = s.responses ++ [.cancelOrderResponse ⟨0, 2, false⟩]))) = true := by decide +kernel
  obtain ⟨s, hreach, h⟩ := Reach.exists_of_execIf hrun
  rw [Bool.and_eq_true, decide_eq_true_eq, Option.any_eq_true] at h
  obtain ⟨⟨hreq, howner, hheld⟩, s', hs', hresp⟩ := h
  obtain ⟨b, hb, hix⟩ := Option.bind_eq_some_iff.1 hheld
  have hlive : ¬ s.me.Absent 0 := by
    intro habs
    rw [habs _ b hb] at hix
    cases hix
  exact ⟨s, hreach, hreq, howner, hlive, fun hserved =>
    hlive (hserved.refused s' hs' (of_decide_eq_true hresp))⟩

end Exchange

end Elsa
