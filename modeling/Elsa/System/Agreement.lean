import Elsa.System.Placement

/-!
# The order manager and the engine agree

`Agrees` joins the two sides: the engine's side is `Placed`, and for each accepted order the entry in
`order_info_map` has the data of the order and the quantities that the processed trades give.  Every move keeps it,
for any arithmetic, as long as the counter of order ids does not leave the range of `int` (`CounterFits`), so it
holds along every run.

A resting order then has what the order manager believes it has: the open quantity in its entry is the resting
quantity plus the quantity of the trades on their way.
-/

namespace Elsa

open Base LimitOrderBook

/-- An entry holds the data of an order of which `done` was filled. -/
structure OrderInfo.Records (info : OrderInfo) (o : NewOrderSingle) (done : Int) : Prop where
  sender_eq : info.senderCompId = o.senderCompId
  symbol_eq : info.symbol = o.symbol
  side_eq : info.side = o.side
  price_eq : info.price = o.price
  leaves_eq : info.leavesQty = o.orderQty - done
  cum_eq : info.cumQty = done

/-- Filling an entry keeps it in step with the order, as long as the quantity fits. -/
theorem OrderInfo.Records.filled {A : Arith} {info : OrderInfo} {o : NewOrderSingle} {done : Int}
    (h : info.Records o done) (price : Int) {quantity : Int} (hdone : 0 ≤ done) (hpos : 0 < quantity)
    (hle : done + quantity ≤ o.orderQty) (hqty : o.orderQty ≤ 2147483647) :
    (info.filled A price quantity).Records o (done + quantity) := by
  refine ⟨h.sender_eq, h.symbol_eq, h.side_eq, h.price_eq, ?_, ?_⟩
  · have hl := h.leaves_eq
    have : A.int (info.leavesQty - quantity) = info.leavesQty - quantity := A.int_eq _ ⟨by omega, by omega⟩
    show A.int (info.leavesQty - quantity) = _
    omega
  · have hc := h.cum_eq
    have : A.int (info.cumQty + quantity) = info.cumQty + quantity := A.int_eq _ ⟨by omega, by omega⟩
    show A.int (info.cumQty + quantity) = _
    omega

/-- A market bid that waits for the answer to its query. -/
structure NewOrderSingle.Awaits (cfg : Config) (o : NewOrderSingle) : Prop where
  id_eq : o.orderId = some o.id
  type_eq : o.ordType = .market
  side_eq : o.side = .bid
  price_eq : o.price = none
  qty_le : o.orderQty ≤ 2147483647
  user : cfg.usernameUserIdMap o.senderCompId ≠ none

namespace Exchange

/-- All responses, processed or on their way. -/
def stream (s : Exchange) : List Container := s.history.processed ++ s.responses

structure Agrees (cfg : Config) (s : Exchange) : Prop where
  placed : Placed cfg s.history.accepted s.requests s.me s.stream
  counter : -1 ≤ s.om.latestAssignedOrderId
  domain : ∀ id, s.om.orderIdMap.left id = none ↔ s.om.orderInfoMap id = none
  range : ∀ id, s.om.orderInfoMap id ≠ none → 0 ≤ id ∧ id ≤ s.om.latestAssignedOrderId
  recorded : ∀ o ∈ s.history.accepted, ∃ info, s.om.orderInfoMap o.id = some info ∧
    info.Records o (amountOf s.history.processed o.id)
  waiting : ∀ o gw, s.waiting = some (o, gw) → o.Awaits cfg ∧ s.om.orderInfoMap o.id = some (.ofNewOrder o gw) ∧
    o.id ∉ s.history.accepted.map NewOrderSingle.id
  cancels : ∀ r, .cancelOrderRequest r ∈ s.requests → ∃ id, r.orderId = some id ∧ s.om.orderInfoMap id ≠ none
  answered : ∀ c ∈ s.responses,
    (∃ t, c = .trade t) ∨ ∃ r, c = .cancelOrderResponse r ∧ s.om.orderInfoMap r.orderId ≠ none

/-- The counter of order ids stays in the range of the arithmetic. -/
def CounterFits (A : Arith) (s : Exchange) : Event → Prop
  | .request (.newOrderSingle _) _ _ => s.nextId A = s.om.latestAssignedOrderId + 1
  | _ => True

instance (A : Arith) (s : Exchange) (e : Event) : Decidable (CounterFits A s e) := by
  unfold CounterFits
  split <;> infer_instance

theorem counterFits_exact (s : Exchange) (e : Event) : CounterFits .exact s e := by
  unfold CounterFits
  split
  · rfl
  · trivial

end Exchange

/-! ### Validation admits -/

theorem Validated.admitted {cfg : Config} {A : Arith} {bc bc' : BalanceChecker} {cost : Option Int}
    {o : NewOrderSingle} (hv : Validated cfg A bc cost o bc') (hid : o.orderId = some o.id)
    (hshape : o.ordType = .limit ↔ o.price.isSome = true) (hprice : ∀ p, o.price = some p → p ≤ marketBidOrderPrice)
    (hqty : o.orderQty ≤ 2147483647) (hu : cfg.usernameUserIdMap o.senderCompId ≠ none) : o.Admitted cfg where
  id_eq := hid
  shape := hshape
  symbol_active := hv.symbol_active
  price_range p hp := ⟨hv.price_pos p hp, hprice p hp⟩
  qty_pos := hv.qty_pos
  qty_le := hqty
  user := hu
  symbol_ne hside := by
    obtain ⟨ticker, delta, x, hr, hne, -⟩ := hv.reserved
    cases hr with
    | limitBid price hs => rw [hside] at hs; cases hs
    | marketBid fillCost hs => rw [hside] at hs; cases hs
    | ask => exact hne

/-- What a registered order that is validated at once brings with it. -/
theorem Exchange.Registers.admitted {cfg : Config} {A : Arith} {s : Exchange} {o : NewOrderSingle} {userId id : Int}
    {bc bc' : BalanceChecker} {cost : Option Int} (h : s.Registers cfg A o userId)
    (hv : Validated cfg A bc cost (o.assigned id) bc') : (o.assigned id).Admitted cfg := by
  obtain ⟨-, hshape, -, hqty, hprice⟩ := h.shaped
  refine hv.admitted rfl hshape (fun p hp => ?_) hqty.2
    (by rw [show (o.assigned id).senderCompId = o.senderCompId from rfl, h.user]; simp)
  have hp' : o.price = some p := hp
  rw [hp'] at hprice
  exact (of_decide_eq_true hprice).2

namespace Placed

variable {cfg : Config} {accepted : List NewOrderSingle} {requests : List Container} {me : MatchingEngine}
  {stream : List Container} {o : NewOrderSingle}

theorem amountOf_nonneg (h : Placed cfg accepted requests me stream) {cs : List Container}
    (hsub : ∀ c ∈ cs, c ∈ stream) (id : Int) : 0 ≤ amountOf cs id := by
  refine List.sum_nonneg fun x hx => ?_
  obtain ⟨c, hc, rfl⟩ := List.mem_map.1 hx
  cases c with
  | trade t =>
    obtain ⟨taker, -, maker, -, hb⟩ := h.trades t (hsub _ hc)
    have := hb.quantity_pos
    simp only [Container.amountFor, TradeContainer.amountFor]
    split <;> split <;> omega
  | _ => exact le_refl 0

private theorem requestedQty_nonneg (h : Placed cfg accepted requests me stream) (id : Int) :
    0 ≤ requestedQty requests id :=
  totalAt_nonneg (fun _ ho => (h.admitted _ (h.mem_accepted ho)).qty_pos.le) id

/-- No order is filled beyond its quantity. -/
theorem amountOf_le (h : Placed cfg accepted requests me stream) (ho : o ∈ accepted) :
    amountOf stream o.id ≤ o.orderQty := by
  have h1 := h.live_le o ho
  have h2 := h.requestedQty_nonneg o.id
  have h3 := MatchingEngine.restingQty_nonneg h.engine_ok o.symbol o.id
  unfold live at h1
  omega

end Placed

namespace Exchange

variable {cfg : Config} {A : Arith} {s : Exchange}

theorem start_agrees (balances : BalanceChecker) : (start cfg balances).Agrees cfg where
  placed := Placed.start
  counter := le_refl _
  domain _ := ⟨fun _ => rfl, fun _ => rfl⟩
  range _ h := absurd rfl h
  recorded _ h := by cases h
  waiting _ _ h := by cases h
  cancels _ h := by cases h
  answered _ h := by cases h

namespace Agrees

/-! ### Requests -/

/-- The next id is not in use. -/
private theorem nextId_free (h : s.Agrees cfg) (hid : s.nextId A = s.om.latestAssignedOrderId + 1) :
    s.om.orderInfoMap (s.nextId A) = none := by
  by_contra hne
  have := (h.range _ hne).2
  omega

theorem accepted_known (h : s.Agrees cfg) {id : Int} (hid : id ∈ s.history.accepted.map NewOrderSingle.id) :
    s.om.orderInfoMap id ≠ none := by
  obtain ⟨o, ho, rfl⟩ := List.mem_map.1 hid
  obtain ⟨info, hinfo, -⟩ := h.recorded o ho
  rw [hinfo]
  exact Option.some_ne_none info

/-- The next id was not accepted before. -/
theorem nextId_new (h : s.Agrees cfg) (hid : s.nextId A = s.om.latestAssignedOrderId + 1) :
    s.nextId A ∉ s.history.accepted.map NewOrderSingle.id :=
  fun hmem => h.accepted_known hmem (h.nextId_free hid)

/-- The answer to a query is taken. -/
theorem idle (h : s.Agrees cfg) (answers : List Container) : Agrees cfg { s with waiting := none, answers } :=
  ⟨h.placed, h.counter, h.domain, h.range, h.recorded, (fun _ _ he => by cases he), h.cancels, h.answered⟩

theorem tick (h : s.Agrees cfg) (hid : s.nextId A = s.om.latestAssignedOrderId + 1) : (s.tick A).Agrees cfg where
  placed := h.placed
  counter := by
    have := h.counter
    show -1 ≤ s.nextId A
    omega
  domain := h.domain
  range id hne := by
    have := h.range id hne
    show 0 ≤ id ∧ id ≤ s.nextId A
    omega
  recorded := h.recorded
  waiting := h.waiting
  cancels := h.cancels
  answered := h.answered

variable {o : NewOrderSingle} {userId gw : Int}

theorem register_info (h : s.Agrees cfg) (hid : s.nextId A = s.om.latestAssignedOrderId + 1) (id : Int) :
    (s.register A o userId gw).om.orderInfoMap id =
      if id = s.nextId A then some (.ofNewOrder (o.assigned (s.nextId A)) gw) else s.om.orderInfoMap id :=
  emplace_of_free (h.nextId_free hid) _ id

/-- Entering an order in the maps touches no other order. -/
theorem register_known (h : s.Agrees cfg) (hid : s.nextId A = s.om.latestAssignedOrderId + 1) {id : Int}
    {info : OrderInfo} (hinfo : s.om.orderInfoMap id = some info) :
    (s.register A o userId gw).om.orderInfoMap id = some info := by
  rw [h.register_info hid, if_neg, hinfo]
  rintro rfl
  rw [h.nextId_free hid] at hinfo
  cases hinfo

theorem register (h : s.Agrees cfg) (hid : s.nextId A = s.om.latestAssignedOrderId + 1)
    (hr : s.Registers cfg A o userId) : (s.register A o userId gw).Agrees cfg := by
  have hknown : ∀ {id}, s.om.orderInfoMap id ≠ none → (s.register A o userId gw).om.orderInfoMap id ≠ none := by
    intro id hne
    obtain ⟨info, hinfo⟩ := Option.ne_none_iff_exists'.1 hne
    rw [h.register_known hid hinfo]
    exact Option.some_ne_none info
  have hcount := h.counter
  refine ⟨h.placed, (h.tick hid).counter, fun id => ?_, fun id hne => ?_, fun o' ho' => ?_, fun o' gw' hw => ?_,
    fun r hr' => ?_, fun c hc => (h.answered c hc).imp_right fun ⟨r, he, hk⟩ => ⟨r, he, hknown hk⟩⟩
  · have hleft : (s.register A o userId gw).om.orderIdMap.left id =
        if id = s.nextId A then some (transformedClOrdId A o.clOrdId userId) else s.om.orderIdMap.left id :=
      Bimap.left_insert ((h.domain _).2 (h.nextId_free hid)) hr.key_free id
    rw [hleft, h.register_info hid]
    split
    · simp
    · exact h.domain id
  · rw [h.register_info hid] at hne
    show 0 ≤ id ∧ id ≤ s.nextId A
    split at hne
    · omega
    · have := h.range id hne
      omega
  · obtain ⟨info, hinfo, hrec⟩ := h.recorded o' ho'
    exact ⟨info, h.register_known hid hinfo, hrec⟩
  · have hw' : s.waiting = some (o', gw') := hw
    rw [hr.idle] at hw'
    cases hw'
  · obtain ⟨id, h1, h2⟩ := h.cancels r hr'
    exact ⟨id, h1, hknown h2⟩

/-- An accepted order is entered in the maps and not accepted before. -/
theorem accept (h : s.Agrees cfg) (gw : Int) (ho : o.Admitted cfg)
    (hinfo : s.om.orderInfoMap o.id = some (.ofNewOrder o gw))
    (hnew : o.id ∉ s.history.accepted.map NewOrderSingle.id) (hw : s.waiting = none) (bc : BalanceChecker) :
    (s.accept o bc).Agrees cfg := by
  refine ⟨h.placed.accept ho hnew, h.counter, h.domain, h.range, fun o' ho' => ?_, fun o' gw' hw' => ?_,
    fun r hr => ?_, h.answered⟩
  · rcases List.mem_append.1 ho' with ho' | ho'
    · exact h.recorded o' ho'
    · rw [List.mem_singleton.1 ho']
      have hzero : amountOf s.history.processed o.id = 0 := amountOf_eq_zero fun c hc ht =>
        hnew (h.placed.accepted_of_touches (List.mem_append_left _ hc) ht)
      exact ⟨_, hinfo, rfl, rfl, rfl, rfl, (by rw [Exchange.accept, hzero, Int.sub_zero]; rfl), hzero.symm⟩
  · have : s.waiting = some (o', gw') := hw'
    rw [hw] at this
    cases this
  · rcases List.mem_append.1 hr with hr | hr
    · exact h.cancels r hr
    · cases List.mem_singleton.1 hr

/-! ### Responses -/

theorem stream_eq {c : Container} {responses : List Container} (hr : s.responses = c :: responses) :
    (s.history.process c).processed ++ responses = s.stream := by
  rw [stream, hr, History.process, List.append_assoc]
  rfl

theorem mem_stream {c : Container} {responses : List Container} (hr : s.responses = c :: responses) : c ∈ s.stream :=
  List.mem_append_right _ (by rw [hr]; exact List.mem_cons_self)

private theorem processed_nonneg (h : s.Agrees cfg) (id : Int) : 0 ≤ amountOf s.history.processed id :=
  h.placed.amountOf_nonneg (fun _ hc => List.mem_append_left _ hc) id

theorem inFlight_nonneg (h : s.Agrees cfg) (id : Int) : 0 ≤ amountOf s.responses id :=
  h.placed.amountOf_nonneg (fun _ hc => List.mem_append_right _ hc) id

theorem leaves_range (h : s.Agrees cfg) (ho : o ∈ s.history.accepted) {info : OrderInfo}
    (hrec : info.Records o (amountOf s.history.processed o.id)) :
    0 ≤ info.leavesQty ∧ info.leavesQty ≤ o.orderQty := by
  have h1 := hrec.leaves_eq
  have h2 := h.processed_nonneg o.id
  have h3 := h.inFlight_nonneg o.id
  have h4 := h.placed.amountOf_le ho
  rw [stream, amountOf_append] at h4
  omega

/-- What the trade at the head of the responses moves still fits the orders. -/
theorem trade_le (h : s.Agrees cfg) {t : TradeContainer} {responses : List Container}
    (hr : s.responses = .trade t :: responses) (ho : o ∈ s.history.accepted) :
    0 ≤ amountOf s.history.processed o.id ∧
      amountOf s.history.processed o.id + t.amountFor o.id ≤ o.orderQty := by
  have h1 := h.processed_nonneg o.id
  have hsub : ∀ c ∈ responses, c ∈ s.stream := fun c hc =>
    List.mem_append_right _ (by rw [hr]; exact List.mem_cons_of_mem _ hc)
  have h2 := h.placed.amountOf_nonneg hsub o.id
  have h3 := h.placed.amountOf_le ho
  rw [stream, hr, amountOf_append, amountOf_cons] at h3
  have h4 : (Container.trade t).amountFor o.id = t.amountFor o.id := rfl
  omega

/-- A response is processed; it remains to look at the entries of the accepted orders. -/
theorem process (h : s.Agrees cfg) {c : Container} {responses : List Container} {om : OrderManager}
    (hr : s.responses = c :: responses) (hw : s.waiting = none) (hu : updateInternalData A s.om c = .ok om)
    (hrec : ∀ o ∈ s.history.accepted, ∃ info, om.orderInfoMap o.id = some info ∧
      info.Records o (amountOf s.history.processed o.id + c.amountFor o.id)) :
    Agrees cfg { s with om, responses, history := s.history.process c } := by
  obtain ⟨hleft, hlatest, hfixed⟩ := updateInternalData_fixed hu
  -- no entry appears or disappears
  have hnone : ∀ id, om.orderInfoMap id = none ↔ s.om.orderInfoMap id = none := by
    intro id
    rw [← Option.map_eq_none_iff (f := OrderInfo.fixed), hfixed, Option.map_eq_none_iff]
  refine ⟨?_, by rw [hlatest]; exact h.counter, fun id => ?_, fun id hne => ?_, fun o ho => ?_, fun o gw hw' => ?_,
    fun r hr' => ?_, fun d hd => ?_⟩
  · show Placed cfg s.history.accepted s.requests s.me ((s.history.process c).processed ++ responses)
    rw [stream_eq hr]
    exact h.placed
  · rw [hleft, hnone]
    exact h.domain id
  · rw [hlatest]
    exact h.range id (mt (hnone id).2 hne)
  · obtain ⟨info, hinfo, hrec⟩ := hrec o ho
    refine ⟨info, hinfo, ?_⟩
    show info.Records o (amountOf (s.history.processed ++ [c]) o.id)
    rw [amountOf_append, amountOf_cons, amountOf_nil, Int.add_zero]
    exact hrec
  · have : s.waiting = some (o, gw) := hw'
    rw [hw] at this
    cases this
  · obtain ⟨id, h1, h2⟩ := h.cancels r hr'
    exact ⟨id, h1, mt (hnone id).1 h2⟩
  · exact (h.answered d (by rw [hr]; exact List.mem_cons_of_mem _ hd)).imp_right fun ⟨r, he, hk⟩ =>
      ⟨r, he, mt (hnone _).1 hk⟩

/-- The two orders of the trade at the head of the responses. -/
theorem trade_between (h : s.Agrees cfg) {t : TradeContainer} {responses : List Container}
    (hr : s.responses = .trade t :: responses) :
    ∃ taker ∈ s.history.accepted, ∃ maker ∈ s.history.accepted, t.Between taker maker :=
  h.placed.trades t (mem_stream hr)

theorem trade_parties (h : s.Agrees cfg) {t : TradeContainer} {responses : List Container}
    (hr : s.responses = .trade t :: responses) :
    ∃ buyer ∈ s.history.accepted, ∃ seller ∈ s.history.accepted, t.Parties buyer seller := by
  obtain ⟨taker, htk, maker, hmk, hb⟩ := h.trade_between hr
  rcases hb.parties with ⟨-, hp⟩ | ⟨-, hp⟩
  · exact ⟨taker, htk, maker, hmk, hp⟩
  · exact ⟨maker, hmk, taker, htk, hp⟩

theorem settle (h : s.Agrees cfg) {t : TradeContainer} {responses : List Container} {om : OrderManager}
    (hr : s.responses = .trade t :: responses) (hw : s.waiting = none)
    (hu : updateInternalData A s.om (.trade t) = .ok om) :
    Agrees cfg { s with om, responses, history := s.history.process (.trade t) } := by
  obtain ⟨tk, htk, mk, hmk, hb⟩ := h.trade_between hr
  have hne := hb.ids_ne
  refine h.process hr hw hu fun o ho => ?_
  obtain ⟨taker, maker, -, -, -, bc, h1, h2, -, -, -, -, -, -, rfl⟩ := (updateInternalData_trade hb.ids_ne).1 hu
  obtain ⟨info, hinfo, hrec⟩ := h.recorded o ho
  obtain ⟨h0, hle⟩ := h.trade_le hr ho
  have hqty := (h.placed.admitted o ho).qty_le
  have hpos := hb.quantity_pos
  simp only [infosAfter, Function.update_apply, Container.amountFor]
  simp only [TradeContainer.amountFor] at hle ⊢
  by_cases hm : o.id = t.makerOrderId
  · rw [hm, h2] at hinfo
    cases hinfo
    simp only [hm, hne, if_true, if_false, Int.zero_add] at hle h0 hrec ⊢
    exact ⟨_, rfl, hrec.filled t.price h0 hpos hle hqty⟩
  · by_cases ht : o.id = t.takerOrderId
    · rw [ht, h1] at hinfo
      cases hinfo
      simp only [ht, hne, hne.symm, if_true, if_false, Int.add_zero] at hle h0 hrec ⊢
      exact ⟨_, rfl, hrec.filled t.price h0 hpos hle hqty⟩
    · rw [if_neg hm, if_neg ht, if_neg (Ne.symm ht), if_neg (Ne.symm hm)]
      exact ⟨info, hinfo, by simpa using hrec⟩

/-! ### Every move -/

/-- The engine takes a request and sends responses. -/
theorem engine (h : s.Agrees cfg) {c : Container} {requests responses answers : List Container} {me : MatchingEngine}
    (hr : s.requests = c :: requests) (hp : Placed cfg s.history.accepted requests me (s.stream ++ responses))
    (hans : ∀ c ∈ responses,
      (∃ t, c = .trade t) ∨ ∃ r, c = .cancelOrderResponse r ∧ s.om.orderInfoMap r.orderId ≠ none) :
    Agrees cfg { s with me, requests, answers, responses := s.responses ++ responses } := by
  refine ⟨?_, h.counter, h.domain, h.range, h.recorded, h.waiting, fun r hr' => ?_, fun d hd => ?_⟩
  · show Placed cfg s.history.accepted requests me (s.history.processed ++ (s.responses ++ responses))
    rw [← List.append_assoc]
    exact hp
  · exact h.cancels r (by rw [hr]; exact List.mem_cons_of_mem _ hr')
  · exact (List.mem_append.1 hd).elim (h.answered d) (hans d)

/-- The answer to a cancellation names a registered order. -/
private theorem cancel_known (h : s.Agrees cfg) {c : CancelOrderRequest} {requests : List Container} {id : Int}
    (hr : s.requests = .cancelOrderRequest c :: requests) (hid : c.orderId = some id) {clOrdId : Int}
    {success : Bool} :
    ∀ d ∈ [Container.cancelOrderResponse ⟨id, clOrdId, success⟩],
      (∃ t, d = .trade t) ∨ ∃ r, d = .cancelOrderResponse r ∧ s.om.orderInfoMap r.orderId ≠ none := by
  intro d hd
  obtain ⟨id', he, hne⟩ := h.cancels c (by rw [hr]; simp)
  rw [hid] at he
  cases he
  exact Or.inr ⟨_, List.mem_singleton.1 hd, hne⟩

/-- A move keeps the agreement. -/
theorem move (h : s.Agrees cfg) {e : Event} {s' : Exchange} (hfit : CounterFits A s e) (hm : Move cfg A s e s') :
    s'.Agrees cfg := by
  cases hm with
  | refused o gw ids hw => exact h.tick hfit
  | rejected o gw ids userId hr => exact h.register hfit hr
  | forwarded o gw ids userId bc hr hnm hv =>
    refine (h.register hfit hr).accept gw (hr.admitted hv) ?_ ?_ hr.idle bc
    · exact (h.register_info hfit _).trans (if_pos rfl)
    · exact h.nextId_new hfit
  | queried o gw ids userId hr htype hside =>
    have h' : (s.register A o userId gw).Agrees cfg := h.register hfit hr
    refine ⟨h'.placed.send (Or.inr ⟨_, rfl⟩), h'.counter, h'.domain, h'.range, h'.recorded, ?_, ?_, h'.answered⟩
    · rintro o' gw' he
      cases he
      obtain ⟨-, hshape, -, hqty, -⟩ := hr.shaped
      refine ⟨⟨rfl, htype, hside, NewOrderSingle.price_eq_none hshape htype, hqty.2, ?_⟩,
        (h.register_info hfit _).trans (if_pos rfl), h.nextId_new hfit⟩
      show cfg.usernameUserIdMap o.senderCompId ≠ none
      rw [hr.user]
      exact Option.some_ne_none userId
    · intro r hr'
      rcases List.mem_append.1 hr' with hr' | hr'
      · exact h'.cancels r hr'
      · cases List.mem_singleton.1 hr'
  | cancelRefused c gw ids hw => exact h
  | cancelForwarded c gw ids id hw hid hinfo =>
    refine ⟨h.placed.send (Or.inl ⟨_, rfl⟩), h.counter, h.domain, h.range, h.recorded, h.waiting, ?_, h.answered⟩
    intro r hr
    rcases List.mem_append.1 hr with hr | hr
    · exact h.cancels r hr
    · cases List.mem_singleton.1 hr
      exact ⟨id, hid, hinfo⟩
  | answerRefused o gw cost answers ids hw ha => exact h.idle answers
  | answerAccepted o gw cost answers ids bc hw ha hv =>
    obtain ⟨haw, hinfo, hnew⟩ := h.waiting o gw hw
    refine (h.idle answers).accept gw (hv.admitted haw.id_eq ?_ ?_ haw.qty_le haw.user) hinfo hnew rfl bc
    · rw [haw.type_eq, haw.price_eq]; simp
    · rw [haw.price_eq]; nofun
  | matched o id b b' requests draw hr hid hb hfree ht hq hmt hok =>
    refine h.engine hr ((hr ▸ h.placed).matched hid hb hq hmt hok) fun d hd => ?_
    obtain ⟨t, -, he⟩ := List.mem_map.1 hd
    exact Or.inl ⟨t, he.symm⟩
  | cancelled c id b b' requests draw hr hid hb hix hc hok =>
    have hp := (hr ▸ h.placed).take (Or.inl ⟨c, rfl⟩)
    exact h.engine hr (hp.cancelled hb hix hc hok) (h.cancel_known hr hid)
  | cancelMissed c id requests draw hr hid =>
    have hp := (hr ▸ h.placed).take (Or.inl ⟨c, rfl⟩)
    refine h.engine hr (hp.respond ?_) (h.cancel_known hr hid)
    rintro id' (he | ⟨t, he, -⟩) <;> cases he
  | quoted q b cost requests draw hr hb hcost =>
    exact ⟨(hr ▸ h.placed).take (Or.inr ⟨q, rfl⟩), h.counter, h.domain, h.range, h.recorded, h.waiting,
      fun r hr' => h.cancels r (by rw [hr]; exact List.mem_cons_of_mem _ hr'), h.answered⟩
  | settled t responses ids om hw hr hu => exact h.settle hr hw hu
  | confirmed id clOrdId responses ids om hw hr hu =>
    refine h.process hr hw hu fun o ho => ?_
    obtain ⟨info, price, bc', -, -, -, rfl⟩ := updateInternalData_cancel.1 hu
    obtain ⟨info', hinfo, hrec⟩ := h.recorded o ho
    exact ⟨info', hinfo, (Int.add_zero _).symm ▸ hrec⟩
  | cancelFailed id clOrdId responses ids hw hr =>
    refine h.process (A := A) hr hw updateInternalData_refused fun o ho => ?_
    obtain ⟨info', hinfo, hrec⟩ := h.recorded o ho
    exact ⟨info', hinfo, (Int.add_zero _).symm ▸ hrec⟩

theorem move_of_step (h : s.Agrees cfg) {e : Event} {s' : Exchange} (hfed : Fed e) (hs : s.step cfg A e = some s') :
    Move cfg A s e s' := by
  refine Exchange.move_of_step h.placed.engine_ok hfed (fun o ho => ?_) (fun c hc => ?_) hs
  · have had := h.placed.admitted o (h.placed.mem_accepted (mem_requested.2 ho))
    unfold NewOrderSingle.enginePrice
    cases hp : o.price with
    | some p => exact (had.price_range p hp).2
    | none => cases o.side <;> decide
  · exact (h.placed.kinds c hc).imp_left fun ⟨o, _, he⟩ => ⟨o, he⟩

end Agrees

/-- The order manager adds no response, and forgets no accepted order. -/
theorem Move.stream_eq {e : Event} {s' : Exchange} (he : ∀ draw, e ≠ .matching draw) (h : Move cfg A s e s') :
    s'.stream = s.stream ∧ ∀ o ∈ s.history.accepted, o ∈ s'.history.accepted := by
  cases h with
  | matched | cancelled | cancelMissed | quoted => exact absurd rfl (he _)
  | settled _ _ _ _ _ hr | confirmed _ _ _ _ _ _ hr | cancelFailed _ _ _ _ _ hr =>
    exact ⟨Agrees.stream_eq hr, fun _ ho => ho⟩
  | forwarded | answerAccepted => exact ⟨rfl, fun _ ho => List.mem_append_left _ ho⟩
  | refused | rejected | queried | cancelRefused | cancelForwarded | answerRefused => exact ⟨rfl, fun _ ho => ho⟩

/-- Only a response changes what was processed. -/
theorem Move.history_eq {e : Event} {s' : Exchange} (he : ∀ ids, e ≠ .response ids) (h : Move cfg A s e s') :
    s'.history.processed = s.history.processed ∧ ∀ o ∈ s.history.accepted, o ∈ s'.history.accepted := by
  cases h with
  | settled | confirmed | cancelFailed => exact absurd rfl (he _)
  | forwarded | answerAccepted => exact ⟨rfl, fun _ ho => List.mem_append_left _ ho⟩
  | refused | rejected | queried | cancelRefused | cancelForwarded | answerRefused | matched | cancelled
      | cancelMissed
  | quoted => exact ⟨rfl, fun _ ho => ho⟩

/-- An induction over runs in which the moves are known and the two sides agree. -/
theorem invariant_of_moves {guard : Exchange → Event → Prop} {I : Exchange → Prop} {balances : BalanceChecker}
    (hguard : ∀ s e, guard s e → Fed e ∧ CounterFits A s e) (h : Reach (step cfg A) guard (start cfg balances) s)
    (h₀ : I (start cfg balances))
    (hmove : ∀ s e s', s.Agrees cfg → I s → guard s e → Move cfg A s e s' → I s') : s.Agrees cfg ∧ I s := by
  refine h.invariant (I := fun s => s.Agrees cfg ∧ I s) ⟨start_agrees balances, h₀⟩ ?_
  rintro s e s' ⟨ha, hi⟩ hg hs
  obtain ⟨hfed, hfit⟩ := hguard s e hg
  have hm := ha.move_of_step hfed hs
  exact ⟨ha.move hfit hm, hmove s e s' ha hi hg hm⟩

private theorem agrees_of_reach {guard : Exchange → Event → Prop} {balances : BalanceChecker}
    (hguard : ∀ s e, guard s e → Fed e ∧ CounterFits A s e) (h : Reach (step cfg A) guard (start cfg balances) s) :
    s.Agrees cfg :=
  (invariant_of_moves (I := fun _ => True) hguard h trivial fun _ _ _ _ _ _ _ => trivial).1

/-- The states that runs with exact integers pass through, fed with requests of the gateway's shape. -/
abbrev Reachable (cfg : Config) (balances : BalanceChecker) : Exchange → Prop :=
  Reach (step cfg .exact) (fun _ e => Fed e) (start cfg balances)

private theorem agrees_of_reachable {balances : BalanceChecker} (h : Reachable cfg balances s) : s.Agrees cfg :=
  agrees_of_reach (fun s e hfed => ⟨hfed, counterFits_exact s e⟩) h

/-! ### Open orders -/

/-- The order manager knows every resting order, with the quantity that rests and the trades on their way, and the
quantities of every accepted order add up. -/
structure AgreesOnOpenOrders (s : Exchange) : Prop where
  resting : ∀ symbol b, s.me.limitOrderBooks symbol = some b → ∀ n ∈ b.nodes, ∃ info,
    s.om.orderInfoMap n.order.orderId = some info ∧ info.symbol = symbol ∧ info.side = n.order.side ∧
      info.price = some n.order.price ∧ info.senderCompId = n.order.traderId ∧
      info.leavesQty = n.order.quantity + amountOf s.responses n.order.orderId
  accepted : ∀ o ∈ s.history.accepted, ∃ info, s.om.orderInfoMap o.id = some info ∧
    0 ≤ info.leavesQty ∧ 0 ≤ info.cumQty ∧ info.leavesQty + info.cumQty = o.orderQty

/-- An order that rests has traded or still holds all of its quantity. -/
theorem Agrees.resting_qty (h : s.Agrees cfg) {symbol : String} {b : LimitOrderBook}
    (hb : s.me.limitOrderBooks symbol = some b) {n : Node} (hn : n ∈ b.nodes) {o : NewOrderSingle}
    (ho : o ∈ s.history.accepted) (hr : o.RestsAs symbol n.order) :
    o.orderQty = amountOf s.stream o.id + n.order.quantity := by
  have hbok := (h.placed.engine_ok.book_ok symbol b hb).1
  have hix : ∀ {id}, s.me.Absent id → id ≠ o.id := by
    rintro id habs rfl
    exact hbok.not_resting (habs symbol b hb) n hn hr.id_eq.symm
  have hkeys := hbok.indexed.keys_nodup
  rw [slots, List.map_map] at hkeys
  have hheld : s.me.restingQty o.symbol o.id = n.order.quantity := by
    rw [MatchingEngine.restingQty, hr.symbol_eq, hb, hr.id_eq]
    exact totalAt_of_mem hkeys hn
  have hreq : o.id ∉ (requested s.requests).map NewOrderSingle.id := by
    intro hm
    obtain ⟨o', ho', he⟩ := List.mem_map.1 hm
    exact hix (h.placed.requested_absent o' ho') he
  rcases h.placed.live_eq o ho with hl | ⟨c, hc, hcl⟩ | ⟨hres, -⟩
  · rw [live, requestedQty_eq_zero hreq, hheld] at hl
    omega
  · exact absurd rfl (hix (h.placed.closed c hc _ hcl).2.1)
  · -- a reserved price does not rest
    have hp : o.enginePrice = n.order.price := by rw [NewOrderSingle.enginePrice, hr.price_eq]; rfl
    have hpos : 0 < n.order.price ∧ n.order.price < marketBidOrderPrice := by
      rcases List.mem_append.1 hn with hn | hn <;> exact (hbok.node_ok hn).2
    rw [NewOrderSingle.Reserved, hp, marketAskOrderPrice] at hres
    omega

/-- The two processes agree on the open orders in every state of every run. -/
theorem agreesOnOpenOrders_of_reachable {balances : BalanceChecker} (h : Reachable cfg balances s) :
    s.AgreesOnOpenOrders := by
  have ha := agrees_of_reachable h
  refine ⟨fun symbol b hb n hn => ?_, fun o ho => ?_⟩
  · obtain ⟨o, ho, hr⟩ := ha.placed.resting symbol b hb n hn
    obtain ⟨info, hinfo, hrec⟩ := ha.recorded o ho
    have hq := ha.resting_qty hb hn ho hr
    rw [stream, amountOf_append] at hq
    rw [hr.id_eq] at hinfo hrec hq
    refine ⟨info, hinfo, hrec.symbol_eq.trans hr.symbol_eq, hrec.side_eq.trans hr.side_eq,
      hrec.price_eq.trans hr.price_eq, hrec.sender_eq.trans hr.sender_eq, ?_⟩
    rw [hrec.leaves_eq]
    omega
  · obtain ⟨info, hinfo, hrec⟩ := ha.recorded o ho
    have h1 := ha.placed.amountOf_le ho
    have h2 := ha.inFlight_nonneg o.id
    have h3 := ha.processed_nonneg o.id
    rw [stream, amountOf_append] at h1
    have hl := hrec.leaves_eq
    have hc := hrec.cum_eq
    exact ⟨info, hinfo, by omega, by omega, by omega⟩

/-! ### A small run -/

def sampleAsk : NewOrderSingle := ⟨"bob", "GME_SERVER", none, 1, "GME", .ask, 10, .limit, some 100, .day⟩

def sampleBid : NewOrderSingle := ⟨"ann", "GME_SERVER", none, 1, "GME", .bid, 4, .limit, some 100, .day⟩

def sampleMarketBid : NewOrderSingle := ⟨"ann", "GME_SERVER", none, 2, "GME", .bid, 4, .market, none, .day⟩

/-- `bob` cancels what is left of the ask. -/
def sampleCancel : CancelOrderRequest := ⟨"bob", "GME_SERVER", none, 1, 2, "GME", .ask, 10⟩

def noIds : Nat → String := fun _ => ""

def zeroStamps : Nat → Stamp := fun _ => .zero

/-- `bob` asks for ten shares, `ann` bids for four of them; the trade is on its way. -/
def sampleTrading : List Event :=
  [.request (.newOrderSingle sampleAsk) 0 noIds, .request (.newOrderSingle sampleBid) 0 noIds, .matching zeroStamps,
    .matching zeroStamps]

theorem agreesOnOpenOrders_sampleTrading : ∃ s : Exchange, Reachable twoUsers twoBalances s ∧ s.responses.length = 1 ∧
    (s.me.limitOrderBooks "GME").map (fun b => b.nodes.map Node.order) = some [⟨0, 100, 6, .ask, "bob"⟩] ∧
    s.AgreesOnOpenOrders := by
  have hrun : (execIf (step twoUsers .exact) (fun _ e => Fed e) (start twoUsers twoBalances) sampleTrading).any
      (fun s =>
      decide (s.responses.length = 1) && decide ((s.me.limitOrderBooks "GME").map (fun b => b.nodes.map Node.order) =
        some [⟨0, 100, 6, .ask, "bob"⟩])) = true := by decide +kernel
  obtain ⟨s, hreach, h⟩ := Reach.exists_of_execIf hrun
  rw [Bool.and_eq_true, decide_eq_true_eq, decide_eq_true_eq] at h
  exact ⟨s, hreach, h.1, h.2, agreesOnOpenOrders_of_reachable hreach⟩

end Exchange

end Elsa
