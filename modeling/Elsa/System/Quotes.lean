import Elsa.System.Placement

/-!
# The quote of a market bid

For a market bid the order manager asks the engine what filling it costs and takes nothing else until the answer is
there. So the query is the last request on its way, and when the answer has arrived no request is on its way: the
book that the market bid finds is the one the quote was made for (`QuoteProtocol`).  What was reserved is therefore
what the engine makes the bid pay (`quote_eq_cost`).
-/

namespace Elsa

open Base LimitOrderBook

def NewOrderSingle.IsMarketBid (o : NewOrderSingle) : Prop := o.ordType = .market ∧ o.side = .bid

instance (o : NewOrderSingle) : Decidable o.IsMarketBid := inferInstanceAs (Decidable (_ ∧ _))

namespace Exchange

structure QuoteProtocol (A : Arith) (s : Exchange) : Prop where
  first : ∀ o, .newOrderSingle o ∈ s.requests.tail → ¬ o.IsMarketBid
  idle : s.waiting = none → s.answers = [] ∧ ∀ q, .fillCostQuery q ∉ s.requests
  asked : ∀ o gw, s.waiting = some (o, gw) →
    (s.answers = [] ∧ ∃ ahead, s.requests = ahead ++ [.fillCostQuery ⟨o.symbol, o.orderQty, .ask⟩] ∧
      ∀ q, .fillCostQuery q ∉ ahead) ∨
    (s.requests = [] ∧ ∃ b cost, s.me.limitOrderBooks o.symbol = some b ∧ b.getFillCost A o.orderQty .ask = .ok cost ∧
      s.answers = [.fillCostResponse ⟨cost⟩])

namespace QuoteProtocol

variable {cfg : Config} {A : Arith} {s : Exchange}

theorem start (balances : BalanceChecker) : (start cfg balances).QuoteProtocol A where
  first _ h := by cases h
  idle _ := ⟨rfl, fun _ h => by cases h⟩
  asked _ _ h := by cases h

/-- A request that is not a market bid and not a query is sent while no answer is awaited. -/
theorem send (h : s.QuoteProtocol A) (hw : s.waiting = none) {c : Container}
    (hc : ∀ o, c = .newOrderSingle o → ¬ o.IsMarketBid) (hq : ∀ q, c ≠ .fillCostQuery q) {s' : Exchange}
    (hr : s'.requests = s.requests ++ [c]) (ha : s'.answers = s.answers) (hw' : s'.waiting = s.waiting) :
    s'.QuoteProtocol A where
  first o ho := by
    rw [hr] at ho
    cases hreq : s.requests with
    | nil => rw [hreq] at ho; cases ho
    | cons d ds =>
      rw [hreq, List.cons_append, List.tail_cons] at ho
      rcases List.mem_append.1 ho with ho | ho
      · exact h.first o (by rw [hreq]; exact ho)
      · exact hc o (List.mem_singleton.1 ho).symm
  idle _ := by
    obtain ⟨h1, h2⟩ := h.idle hw
    refine ⟨ha.trans h1, fun q hmem => ?_⟩
    rw [hr] at hmem
    rcases List.mem_append.1 hmem with hmem | hmem
    · exact h2 q hmem
    · exact hq q (List.mem_singleton.1 hmem).symm
  asked o gw ho := by
    rw [hw', hw] at ho
    cases ho

/-- The engine takes a request that is not a query. -/
theorem take (h : s.QuoteProtocol A) {c : Container} {requests : List Container} (hr : s.requests = c :: requests)
    (hq : ∀ q, c ≠ .fillCostQuery q) {s' : Exchange} (hr' : s'.requests = requests) (ha : s'.answers = s.answers)
    (hw : s'.waiting = s.waiting) : s'.QuoteProtocol A where
  first o ho := h.first o (by rw [hr]; exact List.mem_of_mem_tail (hr' ▸ ho))
  idle hn := by
    obtain ⟨h1, h2⟩ := h.idle (hw ▸ hn)
    exact ⟨ha.trans h1, fun q hmem => h2 q (by rw [hr]; exact List.mem_cons_of_mem _ (hr' ▸ hmem))⟩
  asked o gw ho := by
    rcases h.asked o gw (hw ▸ ho) with ⟨h1, ahead, h2, h3⟩ | ⟨h1, -⟩
    · left
      rw [hr] at h2
      cases ahead with
      | nil =>
        rw [List.nil_append, List.cons.injEq] at h2
        exact absurd h2.1 (hq _)
      | cons d ahead =>
        rw [List.cons_append, List.cons.injEq] at h2
        exact ⟨ha.trans h1, ahead, hr'.trans h2.2, fun q hmem => h3 q (List.mem_cons_of_mem _ hmem)⟩
    · rw [hr] at h1
      cases h1

/-- When the answer is there, it is the only message, and the engine has not moved since. -/
theorem answer (h : s.QuoteProtocol A) {o : NewOrderSingle} {gw : Int} {cost : Option Int} {answers : List Container}
    (hw : s.waiting = some (o, gw)) (ha : s.answers = .fillCostResponse ⟨cost⟩ :: answers) :
    s.requests = [] ∧ answers = [] ∧
      ∃ b, s.me.limitOrderBooks o.symbol = some b ∧ b.getFillCost A o.orderQty .ask = .ok cost := by
  rcases h.asked o gw hw with ⟨h1, -⟩ | ⟨h1, b, cost', hb, hcost, h2⟩
  · rw [ha] at h1
    cases h1
  · rw [ha] at h2
    cases h2
    exact ⟨h1, rfl, b, hb, hcost⟩

/-- A move keeps the protocol. -/
theorem move (h : s.QuoteProtocol A) {e : Event} {s' : Exchange} (hm : Move cfg A s e s') : s'.QuoteProtocol A := by
  cases hm with
  | refused => exact ⟨h.first, h.idle, h.asked⟩
  | rejected => exact ⟨h.first, h.idle, h.asked⟩
  | forwarded o gw ids userId bc hr hnm hv =>
    exact h.send hr.idle (c := .newOrderSingle (o.assigned (s.nextId A))) (fun _ he => by cases he; exact hnm)
      (by simp) rfl rfl rfl
  | queried o gw ids userId hr htype hside =>
    obtain ⟨h1, h2⟩ := h.idle hr.idle
    refine ⟨fun o' ho' => ?_, fun he => (by cases he), fun o' gw' he => ?_⟩
    · cases hreq : s.requests with
      | nil => simp [hreq] at ho'
      | cons d ds =>
        simp only [hreq, List.cons_append, List.tail_cons, List.mem_append, List.mem_singleton, reduceCtorEq,
          or_false] at ho'
        exact h.first o' (by rw [hreq]; exact ho')
    · cases he
      exact Or.inl ⟨h1, s.requests, rfl, h2⟩
  | cancelRefused => exact h
  | cancelForwarded c gw ids id hw =>
    exact h.send hw (c := .cancelOrderRequest (preprocessedCancel cfg A s.om c)) (by simp) (by simp) rfl rfl rfl
  | answerRefused o gw cost answers ids hw ha =>
    obtain ⟨hr, rfl, -⟩ := h.answer hw ha
    exact ⟨h.first, fun _ => ⟨rfl, fun q hq => by rw [show _ = [] from hr] at hq; cases hq⟩,
      fun _ _ he => by cases he⟩
  | answerAccepted o gw cost answers ids bc hw ha hv =>
    obtain ⟨hr, rfl, -⟩ := h.answer hw ha
    refine ⟨fun o' ho' => ?_, fun _ => ⟨rfl, fun q hq => ?_⟩, fun _ _ he => (by cases he)⟩
    · simp [accept, hr] at ho'
    · simp [accept, hr] at hq
  | matched o id b b' requests draw hr => exact h.take hr (by simp) rfl rfl rfl
  | cancelled c id b b' requests draw hr => exact h.take hr (by simp) rfl rfl rfl
  | cancelMissed c id requests draw hr => exact h.take hr (by simp) rfl rfl rfl
  | quoted q b cost requests draw hr hb hcost =>
    -- only one query is on its way: it is the one that the waiting bid has sent
    cases hw : s.waiting with
    | none => exact absurd (by rw [hr]; simp) ((h.idle hw).2 q)
    | some w =>
      obtain ⟨o, gw⟩ := w
      rcases h.asked o gw hw with ⟨h1, ahead, h2, h3⟩ | ⟨h1, -⟩
      · rw [hr] at h2
        cases ahead with
        | nil =>
          rw [List.nil_append, List.cons.injEq, Container.fillCostQuery.injEq] at h2
          obtain ⟨rfl, rfl⟩ := h2
          refine ⟨fun _ ho => (by cases ho), fun he => (by cases he), fun o' gw' he => ?_⟩
          cases he
          exact Or.inr ⟨rfl, b, cost, hb, hcost, by rw [h1]; rfl⟩
        | cons d ahead =>
          rw [List.cons_append, List.cons.injEq] at h2
          exact absurd (by rw [← h2.1]; simp) (h3 q)
      · rw [hr] at h1
        cases h1
  | settled => exact ⟨h.first, h.idle, h.asked⟩
  | confirmed => exact ⟨h.first, h.idle, h.asked⟩
  | cancelFailed => exact ⟨h.first, h.idle, h.asked⟩

end QuoteProtocol

/-- What a market bid was quoted is what it pays in the same book. -/
theorem quote_eq_cost {b : LimitOrderBook} (hb : b.Ok) {o : NewOrderSingle} (ho : o.IsMarketBid)
    (hprice : o.price = none) (hq : 0 < o.orderQty) {cost : Int}
    (hcost : b.getFillCost .exact o.orderQty .ask = .ok (some cost)) (id : Int) :
    cost = costOf (b.fills (o.taker id) o.orderQty) := by
  have hp : (o.taker id).price = marketBidOrderPrice := by
    show o.enginePrice = _
    rw [NewOrderSingle.enginePrice, hprice, ho.2]
    rfl
  rw [hb.fills_of_market ho.2 hp]
  rw [hb.getFillCost_exact hq] at hcost
  split at hcost
  · cases hcost
  · cases hcost
    rfl

end Exchange

end Elsa
