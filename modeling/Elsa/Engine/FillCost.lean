import Mathlib.Algebra.BigOperators.Ring.List
import Mathlib.Data.List.TakeWhile
import Elsa.Engine.BookInvariant

/-!
# The cost of a market order

`get_fill_cost` adds up the levels of a side; `match_order` fills its orders one by one.  Both give the same amount
(`Ok.getFillCost_eq`): the cost that is quoted for a quantity is what the makers are paid that a market order for this
quantity is matched with on the same book, and what it pays, unless a text of one of its trades does not fit
(`fillCost_eq_tradedValue`).

The quote is computed in 32-bit integers.  It is the exact one as long as the quantities of the levels and the cost
itself fit (`QuoteFits`).
-/

namespace Elsa

open Base

/-- What the makers of an allotment are paid. -/
def costOf (fs : List (Node × Int)) : Int := (fs.map fun f => f.1.order.price * f.2).sum

@[simp] theorem costOf_nil : costOf [] = 0 := rfl

private theorem costOf_append (fs gs : List (Node × Int)) : costOf (fs ++ gs) = costOf fs + costOf gs := by
  simp [costOf]

theorem costOf_nonneg {fs : List (Node × Int)} (h : ∀ f ∈ fs, 0 < f.1.order.price ∧ 0 < f.2) : 0 ≤ costOf fs := by
  refine List.sum_nonneg fun c hc => ?_
  obtain ⟨f, hf, rfl⟩ := List.mem_map.1 hc
  exact (Int.mul_pos (h f hf).1 (h f hf).2).le

/-- At one price the cost is the price times what is taken. -/
private theorem costOf_level {price q : Int} {orders : List Node} (h : ∀ n ∈ orders, n.order.price = price) :
    costOf (nodeLots.allot q orders) = price * (q - nodeLots.unmet q orders) := by
  have hmem : ∀ f ∈ nodeLots.allot q orders, f.1.order.price * f.2 = price * f.2 := by
    intro f hf
    rw [h f.1 ((nodeLots.allot_fst_prefix q orders).subset (List.mem_map.2 ⟨f, hf, rfl⟩))]
  rw [costOf, List.map_congr_left hmem, List.sum_map_mul_left, ← nodeLots.sum_allot]

namespace LimitOrderBook

/-- The total quantity of some orders. -/
def quantityOf (orders : List Node) : Int := (orders.map fun n => n.order.quantity).sum

/-- What a market order of quantity `q` against side `s` costs. -/
def quote (b : LimitOrderBook) (s : Side) (q : Int) : Int := costOf (nodeLots.allot q (b.queue s))

/-- All amounts that `get_fill_cost` computes are at most `bound`. -/
structure QuoteFits (bound : Int) (b : LimitOrderBook) (s : Side) (q : Int) : Prop where
  level_le : ∀ e ∈ (b.getSide s).entries, quantityOf e.2 ≤ bound
  quote_le : b.quote s q ≤ bound

theorem quantityOf_nonneg {orders : List Node} (h : ∀ n ∈ orders, 0 < n.order.quantity) : 0 ≤ quantityOf orders := by
  refine List.sum_nonneg fun c hc => ?_
  obtain ⟨n, hn, rfl⟩ := List.mem_map.1 hc
  exact (h n hn).le

section quote

variable {A : Arith} {bound : Int} (hA : ∀ x, 0 ≤ x → x ≤ bound → A.int x = x)

include hA in
private theorem levelQuantity_eq {orders : List Node} (h : ∀ n ∈ orders, 0 < n.order.quantity)
    (hle : quantityOf orders ≤ bound) : levelQuantity A orders = quantityOf orders := by
  have haux : ∀ (ns : List Node) (acc : Int), (∀ n ∈ ns, 0 < n.order.quantity) → 0 ≤ acc →
      acc + quantityOf ns ≤ bound → ns.foldl (fun acc n => A.int (acc + n.order.quantity)) acc =
      acc + quantityOf ns := by
    intro ns
    induction ns with
    | nil => intro acc _ _ _; simp [quantityOf]
    | cons n ns ih =>
      intro acc hns hacc hb
      have hn := hns n (by simp)
      have hrest : ∀ m ∈ ns, 0 < m.order.quantity := fun m hm => hns m (List.mem_cons_of_mem _ hm)
      have hnn := quantityOf_nonneg hrest
      have hcons : quantityOf (n :: ns) = n.order.quantity + quantityOf ns := by simp [quantityOf]
      rw [hcons] at hb ⊢
      rw [List.foldl_cons, hA _ (by omega) (by omega), ih _ hrest (by omega) (by omega)]
      omega
  rw [levelQuantity, haux orders 0 h (le_refl 0) (by omega)]
  omega

private theorem quantityOf_pos {orders : List Node} (h : ∀ n ∈ orders, 0 < n.order.quantity) (hne : orders ≠ []) :
    0 < quantityOf orders := by
  obtain ⟨n, ns, rfl⟩ := List.exists_cons_of_ne_nil hne
  have hn := h n List.mem_cons_self
  have hns : 0 ≤ quantityOf ns := quantityOf_nonneg fun m hm => h m (List.mem_cons_of_mem _ hm)
  simp only [quantityOf, List.map_cons, List.sum_cons] at hns ⊢
  omega

include hA in
/-- The aggregate of a level whose quantities add up to a number that fits. -/
theorem getLevelAggregate_eq {b : LimitOrderBook} {s : Side} (hok : SideOk s (b.getSide s)) {i : Nat}
    {e : Int × List Node} (hget : (levelsOf s (b.getSide s))[i]? = some e) (hle : quantityOf e.2 ≤ bound) :
    b.getLevelAggregate A s i = .ok ⟨e.1, quantityOf e.2⟩ := by
  have hmem : e ∈ (b.getSide s).entries := mem_levelsOf.1 (List.mem_of_getElem? hget)
  have hqty : ∀ n ∈ e.2, 0 < n.order.quantity := fun n hn => (hok.node_ok e hmem n hn).quantity_pos
  have hpos : 0 < quantityOf e.2 := quantityOf_pos hqty (hok.level_ne e hmem)
  unfold getLevelAggregate
  rw [hget]
  simp only [orFail_some, ok_bind, levelQuantity_eq hA hqty hle]
  rw [require_of ⟨hok.price_pos e hmem, hpos⟩]
  rfl

/-- The cost of the levels from some point on. -/
private theorem cost_cons {e : Int × List Node} {L : List (Int × List Node)} {q : Int} :
    costOf (nodeLots.allot q ((e :: L).flatMap Prod.snd)) =
      costOf (nodeLots.allot q e.2) + costOf (nodeLots.allot (nodeLots.unmet q e.2) (L.flatMap Prod.snd)) := by
  rw [List.flatMap_cons, nodeLots.allot_append, costOf_append]

private theorem cost_levels_nonneg {s : Side} {m : SideContainer} (hok : SideOk s m) {L : List (Int × List Node)}
    (hL : ∀ e ∈ L, e ∈ m.entries) {q : Int} (hq : 0 ≤ q) : 0 ≤ costOf (nodeLots.allot q (L.flatMap Prod.snd)) := by
  refine costOf_nonneg fun f hf => ?_
  have hall : ∀ n ∈ L.flatMap Prod.snd, 0 < n.order.price ∧ 0 < n.order.quantity := by
    intro n hn
    obtain ⟨e, he, hne⟩ := List.mem_flatMap.1 hn
    have hn := hok.node_ok e (hL e he) n hne
    exact ⟨hn.price_eq ▸ hok.price_pos e (hL e he), hn.quantity_pos⟩
  obtain ⟨hmem, hpos, -⟩ := nodeLots.mem_allot hq (fun n hn => (hall n hn).2) hf
  exact ⟨(hall f.1 hmem).1, hpos⟩

private theorem fillCostLoop_zero (A : Arith) (b : LimitOrderBook) (s : Side) (n i : Nat) (total : Int) :
    b.fillCostLoop A s n i total 0 = .ok total := by
  cases n with
  | zero => rfl
  | succ n => rw [fillCostLoop, if_pos rfl]

include hA in
/-- One round of the loop fills from one level. -/
private theorem fillCostLoop_succ {b : LimitOrderBook} {s : Side} (hok : SideOk s (b.getSide s)) {n i : Nat}
    {e : Int × List Node} (hget : (levelsOf s (b.getSide s))[i]? = some e) (hle : quantityOf e.2 ≤ bound)
    {total q : Int} (htot : 0 ≤ total) (hq : 0 ≤ q) (hb : total + costOf (nodeLots.allot q e.2) ≤ bound) :
    b.fillCostLoop A s (n + 1) i total q =
      b.fillCostLoop A s n (i + 1) (total + costOf (nodeLots.allot q e.2)) (nodeLots.unmet q e.2) := by
  have hmem : e ∈ (b.getSide s).entries := mem_levelsOf.1 (List.mem_of_getElem? hget)
  have hqty : ∀ m ∈ e.2, 0 < m.order.quantity := fun m hm => (hok.node_ok e hmem m hm).quantity_pos
  have hpos : 0 < e.1 := hok.price_pos e hmem
  have hunmet : nodeLots.unmet q e.2 = if quantityOf e.2 ≤ q then q - quantityOf e.2 else 0 :=
    nodeLots.unmet_eq hq hqty
  have hcost : costOf (nodeLots.allot q e.2) = e.1 * (q - nodeLots.unmet q e.2) :=
    costOf_level fun m hm => (hok.node_ok e hmem m hm).price_eq
  -- the amount added for this level, which no wrap-around can reach
  have hstep : ∀ x, 0 ≤ x → q - nodeLots.unmet q e.2 = x →
      A.int (total + A.int (e.1 * x)) = total + costOf (nodeLots.allot q e.2) := by
    intro x hx hpx
    have hxn : 0 ≤ e.1 * x := Int.mul_nonneg hpos.le hx
    rw [hpx] at hcost
    rw [hA (e.1 * x) hxn (by omega), ← hcost, hA _ (by omega) (by omega)]
  by_cases hq0 : q = 0
  · rw [hq0, nodeLots.allot_of_nonpos (le_refl 0), nodeLots.unmet_of_nonpos (le_refl 0), fillCostLoop_zero,
      fillCostLoop_zero, costOf_nil, Int.add_zero]
  · rw [fillCostLoop, if_neg hq0, getLevelAggregate_eq hA hok hget hle]
    simp only [ok_bind]
    split
    · rename_i hle'
      rw [if_pos hle'] at hunmet
      rw [hstep _ (quantityOf_nonneg hqty) (by omega), hunmet]
    · rename_i hle'
      rw [if_neg hle'] at hunmet
      rw [hstep q hq (by omega), hunmet]

include hA in
/-- The loop of `get_fill_cost` from level `i` on. -/
private theorem fillCostLoop_eq {b : LimitOrderBook} {s : Side} (hok : SideOk s (b.getSide s))
    (hlev : ∀ e ∈ (b.getSide s).entries, quantityOf e.2 ≤ bound) (n : Nat) :
    ∀ (i : Nat) (total q : Int), n = ((levelsOf s (b.getSide s)).drop i).length → 0 ≤ total → 0 ≤ q →
      total + costOf (nodeLots.allot q (((levelsOf s (b.getSide s)).drop i).flatMap Prod.snd)) ≤ bound →
      b.fillCostLoop A s n i total q =
        .ok (total + costOf (nodeLots.allot q (((levelsOf s (b.getSide s)).drop i).flatMap Prod.snd))) := by
  induction n with
  | zero =>
    intro i total q hn _ _ _
    rw [List.length_eq_zero_iff.1 hn.symm, fillCostLoop]
    simp [Lots.allot]
  | succ n ih =>
    intro i total q hn htot hq hb
    have hi : i < (levelsOf s (b.getSide s)).length := by
      rw [List.length_drop] at hn; omega
    have hdrop : (levelsOf s (b.getSide s)).drop i = (levelsOf s (b.getSide s))[i] ::
        (levelsOf s (b.getSide s)).drop (i + 1) :=
      List.drop_eq_getElem_cons hi
    have hget : (levelsOf s (b.getSide s))[i]? = some (levelsOf s (b.getSide s))[i] := List.getElem?_eq_getElem hi
    have hmem : (levelsOf s (b.getSide s))[i] ∈ (b.getSide s).entries := mem_levelsOf.1 (List.getElem_mem hi)
    have hrest : ∀ e ∈ (levelsOf s (b.getSide s)).drop (i + 1), e ∈ (b.getSide s).entries :=
      fun e he => mem_levelsOf.1 (List.mem_of_mem_drop he)
    have hlen : n = ((levelsOf s (b.getSide s)).drop (i + 1)).length := by
      rw [hdrop, List.length_cons] at hn; omega
    rw [hdrop, cost_cons, ← Int.add_assoc] at hb ⊢
    have hlater := cost_levels_nonneg hok hrest (nodeLots.unmet_nonneg hq (levelsOf s (b.getSide s))[i].2)
    have hhere := cost_levels_nonneg hok (L := [(levelsOf s (b.getSide s))[i]])
        (fun e he => List.mem_singleton.1 he ▸ hmem) hq
    rw [List.flatMap_singleton] at hhere
    rw [fillCostLoop_succ hA hok hget (hlev _ hmem) htot hq (by omega)]
    exact ih (i + 1) _ _ hlen (by omega) (nodeLots.unmet_nonneg hq _) hb

theorem Ok.quote_pos {b : LimitOrderBook} (h : b.Ok) {s : Side} {q : Int} (hq : 0 < q) (hne : b.queue s ≠ []) :
    0 < b.quote s q := by
  obtain ⟨n, ns, hns⟩ := List.exists_cons_of_ne_nil hne
  obtain ⟨hn, hnp, -⟩ := h.node_ok (s := s) (n := n) (by rw [hns]; simp)
  have hrest : ∀ m ∈ ns, 0 < m.order.price ∧ 0 < m.order.quantity := by
    intro m hm
    obtain ⟨h1, h2, -⟩ := h.node_ok (s := s) (n := m) (by rw [hns]; simp [hm])
    exact ⟨h2, h1.quantity_pos⟩
  rw [quote, hns, Lots.allot, if_neg (by omega)]
  split
  · rename_i hcap
    have hcap' : n.order.quantity ≤ q := hcap
    have hmul := Int.mul_pos hnp hn.quantity_pos
    have hnn : 0 ≤ costOf (nodeLots.allot (q - n.order.quantity) ns) := costOf_nonneg fun f hf => by
      obtain ⟨hmem, hpos, -⟩ := nodeLots.mem_allot (by omega) (fun m hm => (hrest m hm).2) hf
      exact ⟨(hrest f.1 hmem).1, hpos⟩
    show 0 < n.order.price * n.order.quantity + costOf (nodeLots.allot (q - n.order.quantity) ns)
    omega
  · have hmul := Int.mul_pos hnp hq
    show 0 < n.order.price * q + 0
    omega

include hA in
/-- The whole loop. -/
theorem Ok.fillCostLoop_quote {b : LimitOrderBook} (h : b.Ok) {s : Side} {q : Int} (hq : 0 < q)
    (hfit : QuoteFits bound b s q) : b.fillCostLoop A s (b.getSide s).size 0 0 q = .ok (b.quote s q) := by
  have hlen : (b.getSide s).size = ((levelsOf s (b.getSide s)).drop 0).length := by
    rw [List.drop_zero, levelsOf_length]
  have hloop := fillCostLoop_eq hA (h.side_ok s) hfit.level_le (b.getSide s).size 0 0 q hlen (le_refl 0) hq.le
    (by rw [List.drop_zero, Int.zero_add]; exact hfit.quote_le)
  rw [List.drop_zero, Int.zero_add] at hloop
  exact hloop

include hA in
/-- The quote is the cost of filling the quantity from the best order on, and there is none for an empty side. -/
theorem Ok.getFillCost_eq {b : LimitOrderBook} (h : b.Ok) {s : Side} {q : Int} (hq : 0 < q)
    (hfit : QuoteFits bound b s q) :
    b.getFillCost A q s = .ok (if b.queue s = [] then none else some (b.quote s q)) := by
  have hok := h.side_ok s
  -- no level is empty, so an empty side is one without levels
  have hempty : (b.getSide s).isEmpty = true ↔ b.queue s = [] := by
    rw [SortedMap.isEmpty, List.isEmpty_iff]
    constructor
    · intro he
      rw [queue, queueOf, List.flatMap_eq_nil_iff]
      intro e hmem
      rw [mem_levelsOf, he] at hmem
      cases hmem
    · intro hnil
      by_contra hne
      obtain ⟨e, es, hes⟩ := List.exists_cons_of_ne_nil hne
      have hmem : e ∈ (b.getSide s).entries := by rw [hes]; simp
      obtain ⟨n, ns, hns⟩ := List.exists_cons_of_ne_nil (hok.level_ne e hmem)
      have : n ∈ b.queue s := mem_queueOf.2 ⟨e, hmem, by rw [hns]; simp⟩
      rw [hnil] at this
      cases this
  unfold getFillCost
  rw [require_of hq]
  simp only [ok_bind]
  by_cases hnil : b.queue s = []
  · rw [if_pos (hempty.2 hnil), if_pos hnil]
    rfl
  · rw [if_neg (mt hempty.1 hnil), if_neg hnil, h.fillCostLoop_quote hA hq hfit]
    simp only [ok_bind]
    rw [require_of (h.quote_pos hq hnil)]
    rfl

end quote

theorem exists_quoteFits (b : LimitOrderBook) (s : Side) (q : Int) : ∃ bound, QuoteFits bound b s q := by
  have hbound : ∀ L : List (Int × List Node), ∃ bound, ∀ e ∈ L, quantityOf e.2 ≤ bound := by
    intro L
    induction L with
    | nil => exact ⟨0, fun _ he => (by cases he)⟩
    | cons e L ih =>
      obtain ⟨bound, hb⟩ := ih
      refine ⟨max (quantityOf e.2) bound, fun e' he' => ?_⟩
      rcases List.mem_cons.1 he' with rfl | he'
      · exact le_max_left _ _
      · exact (hb e' he').trans (le_max_right _ _)
  obtain ⟨bound, hb⟩ := hbound (b.getSide s).entries
  exact ⟨max bound (b.quote s q), fun e he => (hb e he).trans (le_max_left _ _), le_max_right _ _⟩

/-- With exact integers every quote fits. -/
theorem Ok.getFillCost_exact {b : LimitOrderBook} (h : b.Ok) {s : Side} {q : Int} (hq : 0 < q) :
    b.getFillCost .exact q s = .ok (if b.queue s = [] then none else some (b.quote s q)) := by
  obtain ⟨bound, hfit⟩ := b.exists_quoteFits s q
  exact h.getFillCost_eq (fun _ _ _ => rfl) hq hfit

/-- A market order reaches the whole far side. -/
private theorem Ok.reached_of_market {b : LimitOrderBook} (h : b.Ok) {t : Taker}
    (hprice : (t.side = .bid ∧ t.price = marketBidOrderPrice) ∨ (t.side = .ask ∧ t.price = marketAskOrderPrice)) :
    t.reached (b.queue t.side.opposite) = b.queue t.side.opposite := by
  refine List.takeWhile_eq_self_iff.2 fun n hn => decide_eq_true ?_
  obtain ⟨-, hpos, hlt⟩ := h.node_ok hn
  unfold Taker.Crosses
  rcases hprice with ⟨hs, hp⟩ | ⟨hs, hp⟩ <;> rw [hs, hp]
  · exact hlt.le
  · simp only [marketAskOrderPrice]
    omega

/-- The price of a market order on a side. -/
def marketOrderPrice : Side → Int
  | .bid => marketBidOrderPrice
  | .ask => marketAskOrderPrice

/-- A market order against side `s`. -/
def marketTaker (s : Side) (orderId : Int) (brokerId : String) : Taker :=
  ⟨orderId, marketOrderPrice s.opposite, s.opposite, brokerId⟩

private theorem marketTaker_ok (s : Side) {orderId : Int} (hid : 0 ≤ orderId) {brokerId : String}
    (hne : brokerId ≠ "") : (marketTaker s orderId brokerId).Ok := by
  have hprice : ∀ s' : Side, (marketOrderPrice s' = marketAskOrderPrice ∨ 0 < marketOrderPrice s') ∧
      marketOrderPrice s' ≤ marketBidOrderPrice := by
    intro s'
    cases s' <;> decide
  exact ⟨hid, (hprice s.opposite).1, (hprice s.opposite).2, hne⟩

/-- A market order is matched with the makers it was quoted for. -/
private theorem Ok.fills_marketTaker {b : LimitOrderBook} (h : b.Ok) (s : Side) (orderId : Int) (brokerId : String)
    (q : Int) : b.fills (marketTaker s orderId brokerId) q = nodeLots.allot q (b.queue s) := by
  have hprice : (s.opposite = .bid ∧ marketOrderPrice s.opposite = marketBidOrderPrice) ∨
      (s.opposite = .ask ∧ marketOrderPrice s.opposite = marketAskOrderPrice) := by
    cases s <;> decide
  have hreach := h.reached_of_market (t := marketTaker s orderId brokerId) hprice
  have hside : (marketTaker s orderId brokerId).side.opposite = s := Side.opposite_opposite s
  rw [fills, hreach, hside]

/-- A market bid is matched with the makers it was quoted for. -/
theorem Ok.fills_of_market {b : LimitOrderBook} (h : b.Ok) {t : Taker} (hside : t.side = .bid)
    (hprice : t.price = marketBidOrderPrice) (q : Int) : b.fills t q = nodeLots.allot q (b.queue .ask) := by
  rw [fills, h.reached_of_market (Or.inl ⟨hside, hprice⟩), hside]
  rfl

/-- What is left of a market ask is what exceeds the bids. -/
theorem Ok.remainder_of_market_ask {b : LimitOrderBook} (h : b.Ok) {t : Taker} (hside : t.side = .ask)
    (hprice : t.price = marketAskOrderPrice) {q : Int} (hq : 0 ≤ q) :
    b.remainder t q = if quantityOf (b.queue .bid) ≤ q then q - quantityOf (b.queue .bid) else 0 := by
  rw [remainder, h.reached_of_market (Or.inr ⟨hside, hprice⟩), hside]
  exact nodeLots.unmet_eq hq fun n hn => (h.node_ok hn).1.quantity_pos

/-! ### What is quoted is paid -/

/-- What the takers of some trades pay. -/
def tradedValue (ts : List Trade) : Int := (ts.map fun t => t.price * t.quantity).sum

private theorem tradedValue_tradeOf (draw : Nat → Stamp) (ticker : String) (t : Taker) (fs : List (Node × Int))
    (k : Nat) :
    tradedValue ((fs.zipIdx k).map fun f => tradeOf (draw f.2) ticker t f.1.1.order f.1.2) = costOf fs := by
  unfold tradedValue costOf
  rw [List.map_map]
  calc ((fs.zipIdx k).map _).sum
      = ((fs.zipIdx k).map ((fun f => f.1.order.price * f.2) ∘ Prod.fst)).sum := rfl
    _ = (fs.map fun f => f.1.order.price * f.2).sum := by rw [← List.map_map, List.zipIdx_map_fst]

/-- The quote for a quantity is what the makers are paid that a market order for this quantity is matched with, and
there is none exactly if there is no such maker.  The order itself goes through exactly if the texts of all these
trades fit; then its trades are with these makers, so that the quote is what it pays, and none exactly if it does
not trade. -/
theorem fillCost_eq_tradedValue (ticker : String) (b : LimitOrderBook) (h : Reachable ticker b) (s : Side) (q : Int)
    (hq : 0 < q) (orderId : Int) (hid : 0 ≤ orderId) (hfree : b.orderIdMap orderId = none) (brokerId : String)
    (hbroker : brokerId ≠ "") (draw : Nat → Stamp) :
    ∃ cost, b.getFillCost .exact q s = .ok cost ∧
      (cost = if b.fills (marketTaker s orderId brokerId) q = [] then none
        else some (costOf (b.fills (marketTaker s orderId brokerId) q))) ∧
      ((∃ b' ts, b.addOrder draw orderId (marketOrderPrice s.opposite) q s.opposite brokerId = .ok (b', ts)) ↔
        ∀ f ∈ b.fills (marketTaker s orderId brokerId) q, TextsFit b.ticker brokerId f.1.order.traderId) ∧
      ∀ b' ts, b.addOrder draw orderId (marketOrderPrice s.opposite) q s.opposite brokerId = .ok (b', ts) →
        cost = if ts = [] then none else some (tradedValue ts) := by
  have hok := ok_of_reach h
  have ht := marketTaker_ok s hid hbroker
  have hfills := hok.fills_marketTaker s orderId brokerId q
  have hcost : (if b.queue s = [] then none else some (b.quote s q)) =
      if b.fills (marketTaker s orderId brokerId) q = [] then none
      else some (costOf (b.fills (marketTaker s orderId brokerId) q)) := by
    rw [hfills]
    by_cases hnil : b.queue s = []
    · rw [if_pos hnil, hnil]
      rfl
    · -- a quote that is not zero needs a maker
      have hne : nodeLots.allot q (b.queue s) ≠ [] := fun hempty => by
        have hpos := hok.quote_pos hq hnil
        rw [quote, hempty] at hpos
        exact absurd hpos (by decide)
      rw [if_neg hnil, if_neg hne, quote]
  refine ⟨_, hok.getFillCost_exact hq, hcost, ⟨?_, fun hfit => ?_⟩, fun b' ts hrun => ?_⟩
  · rintro ⟨b', ts, hrun⟩
    obtain ⟨-, -, htrades, -⟩ := hok.addOrder_ok ht hq hfree hrun
    exact ((tradesFor_eq_ok_iff (hok.tradable ht hfree hq.le)).1 htrades).1
  · obtain ⟨b', -, -, heq⟩ := hok.addOrder_eq ht hq hfree
    have htrades : tradesFor draw b.ticker (marketTaker s orderId brokerId) 0
        (b.fills (marketTaker s orderId brokerId) q) = .ok _ :=
      (tradesFor_eq_ok_iff (hok.tradable ht hfree hq.le)).2 ⟨hfit, rfl⟩
    exact ⟨b', _, (heq draw).trans (bind_eq_ok.2 ⟨_, htrades, rfl⟩)⟩
  · obtain ⟨-, -, -, hts⟩ := hok.addOrder_ok ht hq hfree hrun
    have hvalue : tradedValue ts = costOf (b.fills (marketTaker s orderId brokerId) q) := by
      rw [hts]
      exact tradedValue_tradeOf draw b.ticker (marketTaker s orderId brokerId) _ 0
    have hempty : ts = [] ↔ b.fills (marketTaker s orderId brokerId) q = [] := by
      rw [hts, List.map_eq_nil_iff, List.zipIdx_eq_nil_iff]
    rw [hcost, hvalue]
    simp only [hempty]

/-- Two asks at 101 and one at 103; a market bid for eight takes seven at 101 and one at 103. -/
def quotedCalls : List (Call × (Nat → Stamp)) :=
  [(.add 0 101 5 .ask "ann", fun _ => .zero), (.add 1 103 4 .ask "bob", fun _ => .zero),
    (.add 2 101 2 .ask "cat", fun _ => .zero)]

theorem fillCost_quotedCalls : ∃ b, Reachable "GME" b ∧ b.getFillCost .exact 8 .ask = .ok (some 810) ∧
    ∃ b' ts, b.addOrder (fun _ => .zero) 3 marketBidOrderPrice 8 .bid "dan" = .ok (b', ts) ∧
      tradedValue ts = 810 := by
  have hrun : (execIf Call.step (fun b e => e.1.Admissible b) (new "GME") quotedCalls).any (fun b =>
      decide (b.getFillCost .exact 8 .ask = .ok (some 810)) && decide (b.orderIdMap 3 = none) &&
        decide (∀ f ∈ b.fills (marketTaker .ask 3 "dan") 8, TextsFit b.ticker "dan" f.1.order.traderId)) = true := by
    decide +kernel
  obtain ⟨b, hreach, h⟩ := Reach.exists_of_execIf hrun
  rw [Bool.and_eq_true, Bool.and_eq_true, decide_eq_true_eq, decide_eq_true_eq, decide_eq_true_eq] at h
  obtain ⟨⟨hcost, hfree⟩, hfit⟩ := h
  obtain ⟨cost, hcost', -, hreturns, hpaid⟩ := fillCost_eq_tradedValue "GME" b hreach .ask 8 (by decide) 3 (by decide)
    hfree "dan" (by decide) (fun _ => .zero)
  obtain ⟨b', ts, hadd⟩ := hreturns.2 hfit
  have heq := hpaid b' ts hadd
  cases hcost.symm.trans hcost'
  refine ⟨b, hreach, hcost, b', ts, hadd, ?_⟩
  split at heq
  · cases heq
  · exact (Option.some_inj.1 heq).symm

/-- A ticker of five bytes does not fit: on a book with one ask a market bid has a quote, and it stops in the
constructor of `Trade`. -/
theorem fillCost_without_trade :
    ∃ b, Reachable "GOOGL" b ∧ (Call.add 1 marketBidOrderPrice 1 .bid "bob").Admissible b ∧
    b.getFillCost .exact 1 .ask = .ok (some 101) ∧
    b.addOrder (fun _ => .zero) 1 marketBidOrderPrice 1 .bid "bob" = .error .assertion := by
  have hrun : (execIf Call.step (fun b e => e.1.Admissible b) (new "GOOGL")
      [(.add 0 101 5 .ask "ann", fun _ => .zero)]).any (fun b =>
        decide ((Call.add 1 marketBidOrderPrice 1 .bid "bob").Admissible b) &&
          decide (b.getFillCost .exact 1 .ask = .ok (some 101)) &&
          decide (errorOf (b.addOrder (fun _ => .zero) 1 marketBidOrderPrice 1 .bid "bob") = some .assertion)) =
            true := by
    decide +kernel
  obtain ⟨b, hreach, h⟩ := Reach.exists_of_execIf hrun
  rw [Bool.and_eq_true, Bool.and_eq_true, decide_eq_true_eq, decide_eq_true_eq, decide_eq_true_eq, errorOf_eq_some]
    at h
  exact ⟨b, hreach, h.1.1, h.1.2, h.2⟩

end LimitOrderBook

end Elsa
