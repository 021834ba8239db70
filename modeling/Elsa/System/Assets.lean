import Mathlib.Algebra.BigOperators.Ring.Finset
import Elsa.System.Ledger

/-!
# Trades move assets and make none

The ledger of each user (`worth_of_reachable`) summed over all users.  What a trade takes from its buyer it gives to
its seller and the other way round, so trades cancel in the sum (`sum_netFlow`): in dollars and in every symbol, what
the users have and what the accepted orders hold back add up to what the users started with, in every state of every
run (`assets_conserved`).  No order holds back less than nothing, so the users together never have more than at the
start.  They may have less for good: what an order holds back that was closed without a confirmed cancellation is not
given back.
-/

namespace Elsa

open Base LimitOrderBook

/-- A trade moves assets between users and makes none. -/
private theorem TradeContainer.sum_flow {users : Finset String} {t : TradeContainer} (hb : t.buyerId ∈ users)
    (hs : t.sellerId ∈ users) (tk : String) : ∑ u ∈ users, t.flow u tk = 0 := by
  unfold flow
  rw [Finset.sum_add_distrib, Finset.sum_ite_eq, Finset.sum_ite_eq, if_pos hb, if_pos hs]
  omega

theorem sum_netFlow {users : Finset String} {ts : List TradeContainer}
    (h : ∀ t ∈ ts, t.buyerId ∈ users ∧ t.sellerId ∈ users) (tk : String) : ∑ u ∈ users, netFlow ts u tk = 0 := by
  induction ts with
  | nil => exact Finset.sum_const_zero
  | cons t ts ih =>
    obtain ⟨hb, hs⟩ := h t List.mem_cons_self
    have hcons : ∀ u, netFlow (t :: ts) u tk = t.flow u tk + netFlow ts u tk := fun _ => rfl
    rw [Finset.sum_congr rfl fun u _ => hcons u, Finset.sum_add_distrib, t.sum_flow hb hs,
      ih fun t' ht' => h t' (List.mem_cons_of_mem t ht')]
    rfl

theorem LimitOrderBook.Ok.costOf_fills_nonneg {b : LimitOrderBook} (hb : b.Ok) {o : Taker} {q : Int} (hq : 0 ≤ q) :
    0 ≤ costOf (b.fills o q) := by
  refine costOf_nonneg fun f hf => ?_
  obtain ⟨hmem, -, hpos⟩ := hb.mem_fills hq hf
  exact ⟨(hb.node_ok hmem).2.1, hpos⟩

namespace Exchange

/-- What an accepted market bid pays in trades that are not settled: those on their way, and those that the engine
makes when it takes the bid. -/
def unpaidBy (s : Exchange) (o : NewOrderSingle) : Int :=
  totalAt TradeContainer.takerOrderId TradeContainer.cost (s.responses.filterMap Container.trade?) o.id +
    if o ∈ requested s.requests then s.me.costToFill o else 0

/-- What an accepted order holds back in a ticker: its open quantity, unless its cancellation was confirmed, and for
a market bid the dollars that it has not paid yet. -/
def heldBy (s : Exchange) (tk : String) (o : NewOrderSingle) : Int :=
  (if o.id ∈ s.history.confirmed then 0 else o.holds tk (s.leaves o.id)) +
    if usdSymbol = tk ∧ o.IsMarketBid then s.unpaidBy o else 0

/-- What the accepted orders of a user hold back. -/
def heldBack (s : Exchange) (u tk : String) : Int :=
  totalAt NewOrderSingle.senderCompId (s.heldBy tk) s.history.accepted u

variable {cfg : Config} {s : Exchange} {u tk : String}

namespace Agrees

/-- Both parties of a trade are users. -/
theorem parties_known (h : s.Agrees cfg) {t : TradeContainer} (ht : .trade t ∈ s.stream) :
    cfg.usernameUserIdMap t.buyerId ≠ none ∧ cfg.usernameUserIdMap t.sellerId ≠ none := by
  obtain ⟨taker, htk, maker, hmk, hb⟩ := h.placed.trades t ht
  have hut := (h.placed.admitted taker htk).user
  have hum := (h.placed.admitted maker hmk).user
  rcases hb.parties with ⟨-, hp⟩ | ⟨-, hp⟩
  · exact ⟨hp.buyer_sender ▸ hut, hp.seller_sender ▸ hum⟩
  · exact ⟨hp.buyer_sender ▸ hum, hp.seller_sender ▸ hut⟩

/-- A trade of a market bid that is on its way names the bid and its sender. -/
private theorem exists_marketBid (h : s.Agrees cfg) {t : TradeContainer}
    (ht : t ∈ (s.responses.filterMap Container.trade?).filter (fun t => t.OfMarketBid s.history.accepted)) :
    ∃ o ∈ s.history.accepted, o.id = t.takerOrderId ∧ o.senderCompId = t.buyerId := by
  obtain ⟨ht, hof⟩ := List.mem_filter.1 ht
  obtain ⟨taker, htk, maker, hmk, hb⟩ := h.placed.trades t (List.mem_append_right _ (mem_trades.1 ht))
  have hm : taker.IsMarketBid := (h.placed.ofMarketBid_iff htk hb).1 (of_decide_eq_true hof)
  refine ⟨taker, htk, hb.taker_id, ?_⟩
  rcases hb.parties with ⟨-, hp⟩ | ⟨-, hp⟩
  · exact hp.buyer_sender
  · exact absurd (hm.2.symm.trans hp.seller_side) (by decide)

/-- The trades on their way with an accepted order as taker, if it is a market bid. -/
private theorem totalAt_ofMarketBid (h : s.Agrees cfg) {o : NewOrderSingle} (ho : o ∈ s.history.accepted) :
    totalAt TradeContainer.takerOrderId TradeContainer.cost
      ((s.responses.filterMap Container.trade?).filter (fun t => t.OfMarketBid s.history.accepted)) o.id =
    if o.IsMarketBid then
      totalAt TradeContainer.takerOrderId TradeContainer.cost (s.responses.filterMap Container.trade?) o.id
    else 0 := by
  split
  · rename_i hm
    rw [totalAt_filter]
    refine totalAt_congr fun t _ hid => if_pos (decide_eq_true ?_)
    exact ⟨o, ho, hid.symm, hm⟩
  · rename_i hm
    refine totalAt_eq_zero fun t ht hid => hm ?_
    obtain ⟨o', ho', hid', hm'⟩ := of_decide_eq_true (List.mem_filter.1 ht).2
    exact h.placed.eq_of_id ho' ho (hid'.trans hid) ▸ hm'

/-- An accepted market bid that the engine has not taken. -/
private theorem totalAt_requested (h : s.Agrees cfg) {o : NewOrderSingle} (ho : o ∈ s.history.accepted) :
    totalAt NewOrderSingle.id s.me.costToFill ((requested s.requests).filter (fun o => o.IsMarketBid)) o.id =
      if o.IsMarketBid then if o ∈ requested s.requests then s.me.costToFill o else 0 else 0 := by
  by_cases hmem : o ∈ (requested s.requests).filter (fun o => o.IsMarketBid)
  · obtain ⟨hreq, hm⟩ := List.mem_filter.1 hmem
    rw [if_pos (of_decide_eq_true hm), if_pos hreq]
    exact totalAt_of_mem (h.placed.requested_nodup.sublist (List.filter_sublist.map _)) hmem
  · have hzero : totalAt NewOrderSingle.id s.me.costToFill
        ((requested s.requests).filter (fun o => o.IsMarketBid)) o.id =
        0 := by
      refine totalAt_eq_zero fun o' ho' hid => hmem ?_
      have hacc := h.placed.mem_accepted (List.mem_of_mem_filter ho')
      exact h.placed.eq_of_id hacc ho hid ▸ ho'
    rw [hzero]
    split
    · rename_i hm
      exact (if_neg fun hreq => hmem (List.mem_filter.2 ⟨hreq, decide_eq_true hm⟩)).symm
    · rfl

/-- What the orders of a user hold back, in the terms of the ledger. -/
theorem heldBack_eq (h : s.Agrees cfg) :
    s.heldBack u tk = s.held u tk + if usdSymbol = tk then s.unpaid u else 0 := by
  have hsplit : s.heldBack u tk = s.held u tk + totalAt NewOrderSingle.senderCompId
      (fun o => if usdSymbol = tk ∧ o.IsMarketBid then s.unpaidBy o else 0) s.history.accepted u := totalAt_add ..
  rw [hsplit]
  congr 1
  by_cases husd : usdSymbol = tk
  · -- order by order, the trades on their way and those that the engine will make
    have horder : ∀ o ∈ s.history.accepted, o.senderCompId = u →
        (if usdSymbol = tk ∧ o.IsMarketBid then s.unpaidBy o else 0) =
          totalAt TradeContainer.takerOrderId TradeContainer.cost
            ((s.responses.filterMap Container.trade?).filter (fun t => t.OfMarketBid s.history.accepted)) o.id +
          totalAt NewOrderSingle.id s.me.costToFill ((requested s.requests).filter (fun o => o.IsMarketBid))
            o.id := by
      intro o ho _
      rw [h.totalAt_ofMarketBid ho, h.totalAt_requested ho]
      by_cases hm : o.IsMarketBid
      · rw [if_pos ⟨husd, hm⟩, if_pos hm, if_pos hm]
        rfl
      · rw [if_neg fun hc => hm hc.2, if_neg hm, if_neg hm]
        rfl
    rw [if_pos husd, totalAt_congr horder, totalAt_add, unpaid, inFlightCost, pendingCost,
      totalAt_totalAt h.placed.nodup (fun t ht => h.exists_marketBid ht),
      totalAt_totalAt h.placed.nodup fun o ho => ⟨o, h.placed.mem_accepted (List.mem_of_mem_filter ho), rfl, rfl⟩]
  · have hzero : ∀ o ∈ s.history.accepted, o.senderCompId = u →
        (if usdSymbol = tk ∧ o.IsMarketBid then s.unpaidBy o else 0) = 0 := fun o _ _ => if_neg fun hc => husd hc.1
    rw [if_neg husd, totalAt_congr hzero]
    exact totalAt_const_zero s.history.accepted u

private theorem costToFill_nonneg (h : s.Agrees cfg) {o : NewOrderSingle} (ho : o ∈ requested s.requests) :
    0 ≤ s.me.costToFill o := by
  unfold MatchingEngine.costToFill
  split
  · rename_i b hb
    have hq := (h.placed.admitted o (h.placed.mem_accepted ho)).qty_pos
    exact (h.placed.engine_ok.book_ok _ b hb).1.costOf_fills_nonneg hq.le
  · exact Int.le_refl 0

private theorem unpaidBy_nonneg (h : s.Agrees cfg) (o : NewOrderSingle) : 0 ≤ s.unpaidBy o := by
  refine Int.add_nonneg (totalAt_nonneg (fun t ht => ?_) o.id) ?_
  · obtain ⟨taker, -, maker, -, hb⟩ := h.placed.trades t (List.mem_append_right _ (mem_trades.1 ht))
    exact (Int.mul_pos hb.price_pos hb.quantity_pos).le
  · split
    · rename_i ho
      exact h.costToFill_nonneg ho
    · exact Int.le_refl 0

/-- No accepted order holds back less than nothing. -/
private theorem heldBy_nonneg (h : s.Agrees cfg) {o : NewOrderSingle} (ho : o ∈ s.history.accepted) :
    0 ≤ s.heldBy tk o := by
  obtain ⟨info, hinfo, hrec⟩ := h.recorded o ho
  have hleaves : 0 ≤ s.leaves o.id := by
    rw [leaves, hinfo]
    exact (h.leaves_range ho hrec).1
  refine Int.add_nonneg ?_ ?_
  · split
    · exact Int.le_refl 0
    unfold NewOrderSingle.holds
    split
    · split
      · exact hleaves
      · exact Int.le_refl 0
    · rename_i price _ hprice
      split
      · exact Int.mul_nonneg ((h.placed.admitted o ho).price_range price hprice).1.le hleaves
      · exact Int.le_refl 0
    · exact Int.le_refl 0
  · split
    · exact h.unpaidBy_nonneg o
    · exact Int.le_refl 0

theorem heldBack_nonneg (h : s.Agrees cfg) : 0 ≤ s.heldBack u tk :=
  totalAt_nonneg (fun _ ho => h.heldBy_nonneg ho) u

end Agrees

end Exchange

end Elsa
