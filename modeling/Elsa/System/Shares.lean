import Elsa.System.Ledger

/-!
# The ledger in shares

An ask reserves its whole quantity when it is accepted.  What the engine does not fill of a limit ask rests, and
returns when the ask is cancelled; what it does not fill of a market ask is dropped, and its reservation never
returns (`share_ledger_market_ask`).  As long as every market ask finds enough bids, the shares of a user are those
they started with, plus what they bought, less what they sold and what rests, whenever no message is on its way.
-/

namespace Elsa

open Base LimitOrderBook

namespace Exchange

/-- No order is submitted at the reserved price `2^31 - 1`. -/
def NoReservedPrice (e : Event) :
    Prop := ∀ o ∈ (request? e).bind Container.newOrder?, o.price ≠ some marketBidOrderPrice

instance (e : Event) : Decidable (NoReservedPrice e) := by
  unfold NoReservedPrice
  infer_instance

/-- The total quantity of the bids that rest under a symbol. -/
def bidDepth (s : Exchange) (symbol : String) : Int :=
  match s.me.limitOrderBooks symbol with
  | some b => quantityOf (b.queue .bid)
  | none => 0

/-- A market ask that the engine takes finds bids for its whole quantity. -/
def MarketAskFilled (s : Exchange) (e : Event) : Prop :=
  ∀ o ∈ (s.taken? e).bind Container.newOrder?, o.ordType = .market → o.side = .ask → o.orderQty ≤ s.bidDepth o.symbol

instance (s : Exchange) (e : Event) : Decidable (MarketAskFilled s e) := by
  unfold MarketAskFilled
  infer_instance

/-- The asks of a user that rest under a symbol. -/
def restingAsks (s : Exchange) (u symbol : String) : Int :=
  match s.me.limitOrderBooks symbol with
  | some b => totalAt (fun n => n.order.traderId) (fun n => n.order.quantity) (b.queue .ask) u
  | none => 0

/-- The ledger of a user's shares. -/
def ShareLedger (balances : BalanceChecker) (s : Exchange) (u symbol : String) : Prop :=
  s.om.balanceChecker.balance u symbol = balances.balance u symbol +
    totalAt (fun t => (t.buyerId, t.ticker)) TradeContainer.quantity s.history.settled (u, symbol) -
    totalAt (fun t => (t.sellerId, t.ticker)) TradeContainer.quantity s.history.settled
      (u, symbol) - s.restingAsks u symbol

instance (balances : BalanceChecker) (s : Exchange) (u symbol : String) :
    Decidable (s.ShareLedger balances u symbol) :=
  inferInstanceAs (Decidable (_ = _))

/-! ### Asks are kept -/

/-- Nothing of an accepted ask is lost: it was traded, is on its way or rests, unless its cancellation was reported.
-/
structure AsksKept (s : Exchange) : Prop where
  price_ne : ∀ o ∈ s.history.accepted, o.price ≠ some marketBidOrderPrice
  kept : ∀ o ∈ s.history.accepted, o.side = .ask →
    live s.requests s.me s.stream o = o.orderQty ∨ ∃ c ∈ s.stream, c.closed? = some o.id

variable {cfg : Config} {s s' : Exchange}

private theorem AsksKept.of_live (hk : s.AsksKept) (hacc : s'.history.accepted = s.history.accepted)
    (hsub : ∀ c ∈ s.stream, c ∈ s'.stream)
    (hlive : ∀ o ∈ s.history.accepted, o.side = .ask →
      live s'.requests s'.me s'.stream o = live s.requests s.me s.stream o ∨ ∃ c ∈ s'.stream, c.closed? = some o.id) :
    s'.AsksKept where
  price_ne := hacc ▸ hk.price_ne
  kept o ho hside := by
    rw [hacc] at ho
    rcases hlive o ho hside with hl | hcl
    · rw [hl]
      exact (hk.kept o ho hside).imp_right fun ⟨c, hc, hcl⟩ => ⟨c, hsub c hc, hcl⟩
    · exact Or.inr hcl

/-- Only new orders, the books and the stream matter. -/
theorem AsksKept.congr (hk : s.AsksKept) (hacc : s'.history.accepted = s.history.accepted)
    (hreq : requested s'.requests = requested s.requests) (hme : s'.me = s.me) (hstream : s'.stream = s.stream) :
    s'.AsksKept := by
  refine hk.of_live hacc (fun c hc => hstream ▸ hc) fun o _ _ => Or.inl ?_
  rw [live, live, requestedQty, requestedQty, hreq, hme, hstream]

theorem AsksKept.accept (h : s.Agrees cfg) (hk : s.AsksKept) {o : NewOrderSingle} {bc : BalanceChecker}
    (hnew : o.id ∉ s.history.accepted.map NewOrderSingle.id) (hp : o.price ≠ some marketBidOrderPrice) :
    (s.accept o bc).AsksKept where
  price_ne o' ho' := by
    rcases List.mem_append.1 ho' with ho' | ho'
    · exact hk.price_ne o' ho'
    · rw [List.mem_singleton.1 ho']; exact hp
  kept o' ho' hside := by
    rcases List.mem_append.1 ho' with ho' | ho'
    · exact (hk.kept o' ho' hside).imp_left fun hl => (Placed.live_accept hnew ho').trans hl
    · rw [List.mem_singleton.1 ho']
      exact Or.inl (h.placed.live_accept_self hnew)

/-- Nothing of an ask is dropped when it is not at the reserved price and, as a market ask, finds enough bids. -/
private theorem remainder_of_ask {b : LimitOrderBook} (hb : b.Ok) {o : NewOrderSingle} (ho : o.Admitted cfg)
    (hside : o.side = .ask) (hprice : o.price ≠ some marketBidOrderPrice)
    (hfill : o.ordType = .market → o.orderQty ≤ quantityOf (b.queue .bid)) {id : Int}
    (hrest : ¬ b.Rests (o.taker id) o.orderQty) : b.remainder (o.taker id) o.orderQty = 0 := by
  have hnn : 0 ≤ b.remainder (o.taker id) o.orderQty := nodeLots.unmet_nonneg ho.qty_pos.le _
  -- a limit ask at another price rests; a market ask is filled
  cases hp : o.price with
  | some p =>
    have hep : (o.taker id).price = p := by show o.enginePrice = p; rw [NewOrderSingle.enginePrice, hp]; rfl
    have hpos := (ho.price_range p hp).1
    by_contra hne
    refine hrest ⟨by omega, ?_, ?_⟩
    · rw [hep]; intro he; exact hprice (he ▸ hp)
    · rw [hep, marketAskOrderPrice]; omega
  | none =>
    have hep : (o.taker id).price = marketAskOrderPrice := by
      show o.enginePrice = _
      rw [NewOrderSingle.enginePrice, hp, hside]
      rfl
    have htype : o.ordType = .market := by
      cases ht : o.ordType with
      | market => rfl
      | limit =>
        have := ho.shape.1 ht
        rw [hp] at this
        cases this
    have hle := hfill htype
    rw [hb.remainder_of_market_ask hside hep ho.qty_pos.le]
    split <;> omega

theorem AsksKept.matched (h : s.Agrees cfg) (hk : s.AsksKept) {o : NewOrderSingle} {id : Int} {b b' : LimitOrderBook}
    {requests : List Container} (draw : Nat → Stamp) (hr : s.requests = .newOrderSingle o :: requests)
    (hid : o.orderId = some id) (hb : s.me.limitOrderBooks o.symbol = some b) (hq : 0 < o.orderQty)
    (hm : b.Matched (o.taker id) o.orderQty b') (hfill : MarketAskFilled s (.matching draw)) :
    AsksKept
      { s with
        me := s.me.setBook o.symbol b'
        requests
        responses := s.responses ++
          (fillTrades draw o.symbol (o.taker id) (b.fills (o.taker id) o.orderQty)).map .trade } := by
  have hp := h.placed
  rw [hr] at hp
  have hid' : o.id = id := by rw [NewOrderSingle.id, hid]; rfl
  have ho := hp.mem_accepted (o := o) (by simp)
  -- only the order that is matched can lose quantity
  refine hk.of_live rfl (fun c hc => ?_) fun o' ho' hside => Or.inl ?_
  · rw [stream, ← List.append_assoc]
    exact List.mem_append_left _ hc
  · rw [stream, ← List.append_assoc]
    refine (hp.live_matched draw hid' hb hq hm ho').trans ?_
    rw [← hr]
    show live s.requests s.me s.stream o' - _ = _
    split
    · rename_i hlost
      have heq : o' = o := hp.eq_of_id ho' ho (hlost.1.symm.trans hid'.symm)
      subst heq
      have hdepth : o'.ordType = .market → o'.orderQty ≤ quantityOf (b.queue .bid) := by
        intro htype
        have := hfill o' (by rw [taken?, hr]; rfl) htype hside
        rwa [bidDepth, hb] at this
      rw [remainder_of_ask (h.placed.engine_ok.book_ok _ b hb).1 (h.placed.admitted o' ho) hside
        (hk.price_ne o' ho) hdepth hlost.2, Int.sub_zero]
    · exact Int.sub_zero _

theorem AsksKept.move (h : s.Agrees cfg) (hk : s.AsksKept) {A : Arith} {e : Event} (hfit : CounterFits A s e)
    (hprice : NoReservedPrice e) (hfill : MarketAskFilled s e) (hm : Move cfg A s e s') : s'.AsksKept := by
  cases hm with
  | refused => exact hk.congr rfl rfl rfl rfl
  | rejected => exact hk.congr rfl rfl rfl rfl
  | forwarded o gw ids userId bc hr hnm hv =>
    exact AsksKept.accept (h.register hfit hr) (hk.congr rfl rfl rfl rfl) (h.nextId_new hfit) (hprice o rfl)
  | queried => exact hk.congr rfl ((requested_append ..).trans (List.append_nil _)) rfl rfl
  | cancelRefused => exact hk
  | cancelForwarded => exact hk.congr rfl ((requested_append ..).trans (List.append_nil _)) rfl rfl
  | answerRefused => exact hk.congr rfl rfl rfl rfl
  | answerAccepted o gw cost answers ids bc hw ha hv =>
    obtain ⟨haw, hinfo, hnew⟩ := h.waiting o gw hw
    exact AsksKept.accept (h.idle answers) (hk.congr rfl rfl rfl rfl) hnew (by rw [haw.price_eq]; simp)
  | matched o id b b' requests draw hr hid hb hfree ht hq hmt hok => exact hk.matched h draw hr hid hb hq hmt hfill
  | cancelled c id b b' requests draw hr hid hb hix hc hok =>
    have hreq : requested s.requests = requested requests := by rw [hr]; rfl
    refine hk.of_live rfl (fun d hd => ?_) fun o' ho' _ => ?_
    · rw [stream, ← List.append_assoc]
      exact List.mem_append_left _ hd
    · rw [stream, ← List.append_assoc]
      by_cases he : o'.id = id
      · exact Or.inr ⟨_, List.mem_append_right _ (List.mem_singleton.2 rfl), by rw [he]; rfl⟩
      · refine Or.inl ((((hr ▸ h.placed).take (Or.inl ⟨c, rfl⟩)).live_cancelled hb hix hc c.clOrdId ho').trans ?_)
        rw [if_neg he, Int.sub_zero, live, live, requestedQty, requestedQty, hreq]
  | cancelMissed c id requests draw hr hid =>
    have hreq : requested s.requests = requested requests := by rw [hr]; rfl
    refine hk.of_live rfl (fun d hd => ?_) fun o' ho' _ => Or.inl ?_
    · rw [stream, ← List.append_assoc]
      exact List.mem_append_left _ hd
    · rw [stream, ← List.append_assoc]
      refine (Placed.live_respond (fun id' ht => ?_) o').trans ?_
      · rcases ht with he | ⟨t, he, -⟩ <;> cases he
      · rw [live, live, requestedQty, requestedQty, hreq]
        rfl
  | quoted q b cost requests draw hr hb hcost => exact hk.congr rfl (by rw [hr]; rfl) rfl rfl
  | settled t responses ids om hw hr hu => exact hk.congr rfl rfl rfl (Agrees.stream_eq hr)
  | confirmed id clOrdId responses ids om hw hr hu => exact hk.congr rfl rfl rfl (Agrees.stream_eq hr)
  | cancelFailed id clOrdId responses ids hw hr => exact hk.congr rfl rfl rfl (Agrees.stream_eq hr)

/-! ### Shares -/

variable {balances : BalanceChecker} {u symbol : String}

/-- In shares, trades bring their quantity to their buyers and take it from their sellers. -/
private theorem netFlow_shares (ts : List TradeContainer) (h : symbol ≠ usdSymbol) :
    netFlow ts u symbol = totalAt (fun t => (t.buyerId, t.ticker)) TradeContainer.quantity ts (u, symbol) -
      totalAt (fun t => (t.sellerId, t.ticker)) TradeContainer.quantity ts (u, symbol) := by
  induction ts with
  | nil => rfl
  | cons t ts ih =>
    have hcons : netFlow (t :: ts) u symbol = t.flow u symbol + netFlow ts u symbol := rfl
    rw [hcons, ih, totalAt_cons, totalAt_cons, TradeContainer.flow]
    simp only [h.symm, if_false, Prod.mk.injEq]
    by_cases hsym : t.ticker = symbol
    · simp only [hsym, and_true, if_true]
      split <;> split <;> omega
    · simp only [hsym, and_false, if_false]
      split <;> split <;> omega

/-- What a book holds for an ask of its symbol rests on the ask side. -/
private theorem Agrees.restingQty_ask (h : s.Agrees cfg) {b : LimitOrderBook}
    (hb : s.me.limitOrderBooks symbol = some b) {o : NewOrderSingle} (ho : o ∈ s.history.accepted)
    (hside : o.side = .ask) :
    s.me.restingQty symbol o.id = totalAt nodeLots.key nodeLots.cap (b.queue .ask) o.id := by
  have hbids : totalAt nodeLots.key nodeLots.cap (b.queue .bid) o.id = 0 := by
    refine totalAt_eq_zero fun n hn he => ?_
    obtain ⟨o', ho', hr⟩ := h.placed.resting symbol b hb n (List.mem_append_left _ hn)
    have heq : o' = o := h.placed.eq_of_id ho' ho (hr.id_eq.trans he)
    have hbid := ((h.placed.engine_ok.book_ok symbol b hb).1.node_ok hn).1.side_eq
    rw [← hr.side_eq, heq, hside] at hbid
    cases hbid
  rw [MatchingEngine.restingQty, hb]
  show totalAt _ _ (b.queue .bid ++ b.queue .ask) _ = _
  rw [totalAt_append, hbids, Int.zero_add]

/-- With no message on its way, an accepted order holds back the shares that rest for it on the ask side. -/
private theorem Agrees.holds_shares (h : s.Agrees cfg) (hk : s.AsksKept) (hq : s.Quiescent)
    (husd : symbol ≠ usdSymbol) {b : LimitOrderBook} (hb : s.me.limitOrderBooks symbol = some b) {o : NewOrderSingle}
    (ho : o ∈ s.history.accepted) :
    (if o.id ∈ s.history.confirmed then 0 else o.holds symbol (s.leaves o.id)) =
      totalAt nodeLots.key nodeLots.cap (b.queue .ask) o.id := by
  have hstream : s.stream = s.history.processed := by rw [stream, hq.2.2.2, List.append_nil]
  -- what rests on the ask side under the id of `o` comes from `o`
  have howner : ∀ n ∈ b.queue .ask, nodeLots.key n = o.id → o.side = .ask ∧ o.symbol = symbol := by
    intro n hn he
    obtain ⟨o', ho', hr⟩ := h.placed.resting symbol b hb n (List.mem_append_right _ hn)
    have heq : o' = o := h.placed.eq_of_id ho' ho (hr.id_eq.trans he)
    subst heq
    exact ⟨hr.side_eq.trans ((h.placed.engine_ok.book_ok symbol b hb).1.node_ok hn).1.side_eq, hr.symbol_eq⟩
  by_cases hconf : o.id ∈ s.history.confirmed
  · obtain ⟨c, hc, hcl⟩ := mem_confirmed.1 hconf
    obtain ⟨-, habs, -⟩ := h.placed.closed c (hstream ▸ hc) o.id hcl
    rw [if_pos hconf, totalAt_eq_zero]
    exact fun n hn => (h.placed.engine_ok.book_ok symbol b hb).1.not_resting (habs symbol b hb) n
      (List.mem_append_right _ hn)
  · rw [if_neg hconf]
    by_cases hask : o.side = .ask ∧ o.symbol = symbol
    · obtain ⟨hside, rfl⟩ := hask
      have hlive : live s.requests s.me s.stream o = o.orderQty := by
        refine (hk.kept o ho hside).resolve_right ?_
        rintro ⟨c, hc, hcl⟩
        exact hconf (mem_confirmed.2 ⟨c, hstream ▸ hc, hcl⟩)
      rw [live, hstream, hq.2.1, requestedQty_eq_zero (by simp), h.restingQty_ask hb ho hside] at hlive
      have hholds : o.holds o.symbol (s.leaves o.id) = s.leaves o.id := by simp [NewOrderSingle.holds, hside]
      rw [hholds, h.leaves_eq ho]
      omega
    · rw [totalAt_eq_zero fun n hn he => hask (howner n hn he)]
      cases hside : o.side with
      | ask =>
        have hsym : o.symbol ≠ symbol := fun he => hask ⟨hside, he⟩
        simp [NewOrderSingle.holds, hside, hsym]
      | bid => cases hp : o.price <;> simp [NewOrderSingle.holds, hside, hp, husd.symm]

private theorem Agrees.held_shares (h : s.Agrees cfg) (hk : s.AsksKept) (hq : s.Quiescent)
    (hactive : symbol ∈ cfg.activeSymbols) (husd : symbol ≠ usdSymbol) :
    s.held u symbol = s.restingAsks u symbol := by
  obtain ⟨b, hb⟩ := Option.ne_none_iff_exists'.1 ((h.placed.engine_ok.book_iff symbol).2 hactive)
  rw [held, totalAt_congr fun o ho _ => h.holds_shares hk hq husd hb ho, restingAsks, hb]
  refine totalAt_totalAt h.placed.nodup (fun n hn => ?_) u
  obtain ⟨o, ho, hr⟩ := h.placed.resting symbol b hb n (List.mem_append_right _ hn)
  exact ⟨o, ho, hr.id_eq, hr.sender_eq⟩

/-- The steps under which no ask loses shares. -/
abbrev KeepsAsks (s : Exchange) (e : Event) : Prop := Fed e ∧ NoReservedPrice e ∧ MarketAskFilled s e

/-- With no message on its way, the shares of a user are what they started with, plus what they bought, less what
they sold and what their asks hold in the book, as long as every market ask found enough bids. -/
theorem share_ledger (h : Reach (step cfg .exact) KeepsAsks (start cfg balances) s) (hq : s.Quiescent)
    (hactive : symbol ∈ cfg.activeSymbols) (husd : symbol ≠ usdSymbol) : s.ShareLedger balances u symbol := by
  have hkept := invariant_of_moves (I := AsksKept) (fun s e hg => ⟨hg.1, counterFits_exact s e⟩) h
    ⟨fun _ ho => (by cases ho), fun _ ho => (by cases ho)⟩
    fun s e _ ha hk hg hm => hk.move ha (counterFits_exact s e) hg.2.1 hg.2.2 hm
  obtain ⟨ha, -, hw⟩ := worth_of_reachable (h.mono fun _ _ hg => hg.1)
  have hu := hw u symbol
  rw [worth, ha.held_shares hkept.2 hq hactive husd, netFlow_shares _ husd, if_neg husd.symm] at hu
  rw [ShareLedger]
  omega

/-- `bob` sells four of ten shares and keeps six in the book; nothing is on its way. -/
theorem share_ledger_sampleTrading : ∃ s : Exchange,
    Reach (step twoUsers .exact) KeepsAsks (start twoUsers twoBalances) s ∧ s.Quiescent ∧
    s.restingAsks "bob" "GME" = 6 ∧ s.ShareLedger twoBalances "bob" "GME" := by
  have hrun : (execIf (step twoUsers .exact) KeepsAsks (start twoUsers twoBalances)
      (sampleTrading ++ [.response noIds])).any
      (fun s => decide s.Quiescent && decide (s.restingAsks "bob" "GME" = 6)) = true := by decide +kernel
  obtain ⟨s, hreach, h⟩ := Reach.exists_of_execIf hrun
  rw [Bool.and_eq_true, decide_eq_true_eq, decide_eq_true_eq] at h
  exact ⟨s, hreach, h.1, h.2, share_ledger hreach h.1 (by decide) (by decide)⟩

def sampleMarketAsk : NewOrderSingle := ⟨"bob", "GME_SERVER", none, 1, "GME", .ask, 10, .market, none, .day⟩

/-- `bob` sends a market ask into an empty book: the ten shares reserved for it are gone. -/
theorem share_ledger_market_ask : ∃ s : Exchange,
    Reach (step twoUsers .exact) (fun _ e => Fed e ∧ NoReservedPrice e) (start twoUsers twoBalances) s ∧ s.Quiescent ∧
      s.history.settled = [] ∧ s.restingAsks "bob" "GME" = 0 ∧ twoBalances.balance "bob" "GME" = 50 ∧
      s.om.balanceChecker.balance "bob" "GME" = 40 ∧ ¬ s.ShareLedger twoBalances "bob" "GME" := by
  have hrun : (execIf (step twoUsers .exact) (fun _ e => Fed e ∧ NoReservedPrice e) (start twoUsers twoBalances)
      [.request (.newOrderSingle sampleMarketAsk) 0 noIds, .matching zeroStamps]).any (fun s =>
        decide (s.Quiescent ∧ s.history.settled = [] ∧ s.restingAsks "bob" "GME" = 0 ∧
          twoBalances.balance "bob" "GME" = 50 ∧ s.om.balanceChecker.balance "bob" "GME" = 40 ∧
          ¬ s.ShareLedger twoBalances "bob" "GME")) = true := by decide +kernel
  obtain ⟨s, hreach, h⟩ := Reach.exists_of_execIf hrun
  exact ⟨s, hreach, of_decide_eq_true h⟩

end Exchange

end Elsa
