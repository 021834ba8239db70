import Mathlib.Algebra.BigOperators.Group.List.Basic
import Mathlib.Tactic.Linarith
import Elsa.Base.Steps
import Elsa.Client.Inventory
import Elsa.Simulation.MarketDataHandler

/-!
# The risk limits of the informed trader

`InformedTrader::evaluate_and_trade` sends an order for `trade_qty` when the book is away from the true price, and
looks at the inventory before it does: a buy must not take it over `max_inventory`, a sale not below 0.  The
inventory counts what has been reported as filled; the orders are good till cancelled, so that earlier ones may
still be open then.  The trader is followed here on one ticker, with its open orders, each of which may fill in full
or in part at any later time.

The limits hold in a run when each order leaves room for the open orders of its side (`Covered`), and every order
that does not can lead out of them (`limits_of_covered`).
-/

namespace Elsa.Simulation

open Base Client

/-- The parameters of an `InformedTrader`. -/
structure TraderConfig where
  initialInventory : ℚ
  epsilon : ℚ
  tradeQty : ℚ
  maxInventory : ℚ

/-- An order at the exchange; `remaining` is what has not been filled. -/
structure OpenOrder where
  clientOrderId : Int
  side : OrderSide
  price : ℚ
  remaining : ℚ
deriving DecidableEq

/-- The trader on one ticker: times are in milliseconds. -/
structure InformedTrader where
  inventory : Inventory
  orderIdCounter : Int
  lastTradeTime : Int
  openOrders : List OpenOrder

namespace InformedTrader

/-- `start`: the inventory is seeded, and no order has been sent. -/
def start (c : TraderConfig) (ticker : String) : InformedTrader :=
  ⟨Function.update (fun _ => 0) ticker c.initialInventory, 0, 0, []⟩

def sendSnipeOrder (t : InformedTrader) (price quantity : ℚ) (side : OrderSide) : InformedTrader :=
  { t with orderIdCounter := t.orderIdCounter + 1
           openOrders := t.openOrders ++ [⟨t.orderIdCounter + 1, side, price, quantity⟩] }

def evaluateAndTrade (c : TraderConfig) (ticker : String) (t : InformedTrader) (now : Int) (ob : OrderBookSnapshot)
    (truePrice : ℚ) : InformedTrader :=
  if now - t.lastTradeTime < 500 then t
  else if ob.bestBidPrice = 0 ∨ ob.bestAskPrice = 0 then t
  else if truePrice > ob.bestAskPrice + c.epsilon then
    if t.inventory ticker + c.tradeQty ≤ c.maxInventory then
      { t.sendSnipeOrder ob.bestAskPrice c.tradeQty .buy with lastTradeTime := now }
    else t
  else if truePrice < ob.bestBidPrice - c.epsilon then
    if t.inventory ticker - c.tradeQty ≥ 0 then
      { t.sendSnipeOrder ob.bestBidPrice c.tradeQty .sell with lastTradeTime := now }
    else t
  else t

/-- The report of a fill of an open order. -/
def fillReport (ticker : String) (o : OpenOrder) (qty : ℚ) : Client.ExecutionReport :=
  { orderId := o.clientOrderId, clientOrderId := o.clientOrderId, ticker := ticker, side := o.side
    status := if qty = o.remaining then .filled else .partiallyFilled
    filledQty := qty, lastPx := o.price, cumulatedFilledQty := qty, remainingQty := o.remaining - qty }

/-- What happens on the ticker: the loop looks at the market, or the order at a place of the list fills. -/
inductive Event
  | evaluate (now : Int) (ob : OrderBookSnapshot) (truePrice : ℚ)
  | fill (index : Nat) (qty : ℚ)

def step (c : TraderConfig) (ticker : String) (t : InformedTrader) : Event → Option InformedTrader
  | .evaluate now ob truePrice => some (evaluateAndTrade c ticker t now ob truePrice)
  | .fill i qty => t.openOrders[i]?.bind fun o =>
    if 0 < qty ∧ qty ≤ o.remaining then
      some { t with inventory := onOrderUpdate t.inventory (fillReport ticker o qty)
                    openOrders := t.openOrders.set i { o with remaining := o.remaining - qty } }
    else none

/-- The limits. -/
def WithinLimits (c : TraderConfig) (ticker : String) (t : InformedTrader) : Prop :=
  0 ≤ t.inventory ticker ∧ t.inventory ticker ≤ c.maxInventory

instance (c : TraderConfig) (ticker : String) (t : InformedTrader) : Decidable (WithinLimits c ticker t) :=
  inferInstanceAs (Decidable (_ ∧ _))

end InformedTrader

/-! ### The open quantity of a side -/

/-- What an order has open on a side. -/
def OpenOrder.on (side : OrderSide) (o : OpenOrder) : ℚ := if o.side = side then o.remaining else 0

def openQty (side : OrderSide) (orders : List OpenOrder) : ℚ := (orders.map (OpenOrder.on side)).sum

@[simp] theorem openQty_nil (side : OrderSide) : openQty side [] = 0 := rfl

@[simp] theorem openQty_cons (side : OrderSide) (o : OpenOrder) (orders : List OpenOrder) :
    openQty side (o :: orders) = o.on side + openQty side orders := by
  simp [openQty]

@[simp] theorem openQty_append (side : OrderSide) (orders orders' : List OpenOrder) :
    openQty side (orders ++ orders') = openQty side orders + openQty side orders' := by
  simp [openQty]

/-- An order in the list is replaced. -/
private theorem openQty_set (side : OrderSide) {orders : List OpenOrder} {i : Nat} {o : OpenOrder}
    (h : orders[i]? = some o) (o' : OpenOrder) :
    openQty side (orders.set i o') = openQty side orders - o.on side + o'.on side := by
  obtain ⟨hi, rfl⟩ := List.getElem?_eq_some_iff.1 h
  rw [openQty, openQty, List.map_set, List.sum_set', dif_pos (by rwa [List.length_map]), List.getElem_map]
  ring

private theorem openQty_nonneg (side : OrderSide) {orders : List OpenOrder} (h : ∀ o ∈ orders, 0 ≤ o.remaining) :
    0 ≤ openQty side orders := by
  refine List.sum_nonneg fun q hq => ?_
  obtain ⟨o, ho, rfl⟩ := List.mem_map.1 hq
  unfold OpenOrder.on
  split
  · exact h o ho
  · exact le_rfl

namespace InformedTrader

/-! ### Room for the open orders -/

/-- The side on which the market is away from the true price, if the trader looks at it at all. -/
def opportunity (c : TraderConfig) (t : InformedTrader) (now : Int) (ob : OrderBookSnapshot) (truePrice : ℚ) :
    Option OrderSide :=
  if now - t.lastTradeTime < 500 ∨ ob.bestBidPrice = 0 ∨ ob.bestAskPrice = 0 then none
  else if truePrice > ob.bestAskPrice + c.epsilon then some .buy
  else if truePrice < ob.bestBidPrice - c.epsilon then some .sell
  else none

/-- The check that is made: the order alone keeps the inventory within its limits. -/
def Fits (c : TraderConfig) (ticker : String) (t : InformedTrader) : OrderSide → Prop
  | .buy => t.inventory ticker + c.tradeQty ≤ c.maxInventory
  | .sell => 0 ≤ t.inventory ticker - c.tradeQty

/-- The order does so together with the open orders of its side. -/
def Room (c : TraderConfig) (ticker : String) (t : InformedTrader) : OrderSide → Prop
  | .buy => t.inventory ticker + openQty .buy t.openOrders + c.tradeQty ≤ c.maxInventory
  | .sell => openQty .sell t.openOrders + c.tradeQty ≤ t.inventory ticker

/-- An order that would pass the check leaves room for those that are open. -/
def Covered (c : TraderConfig) (ticker : String) (t : InformedTrader) : Event → Prop
  | .evaluate now ob truePrice => ∀ side ∈ opportunity c t now ob truePrice, Fits c ticker t side →
      Room c ticker t side
  | .fill _ _ => True

instance (c : TraderConfig) (ticker : String) (t : InformedTrader) (side : OrderSide) :
    Decidable (Fits c ticker t side) :=
  match side with
  | .buy => inferInstanceAs (Decidable (_ ≤ _))
  | .sell => inferInstanceAs (Decidable (_ ≤ _))

instance (c : TraderConfig) (ticker : String) (t : InformedTrader) (side : OrderSide) :
    Decidable (Room c ticker t side) :=
  match side with
  | .buy => inferInstanceAs (Decidable (_ ≤ _))
  | .sell => inferInstanceAs (Decidable (_ ≤ _))

instance (c : TraderConfig) (ticker : String) (t : InformedTrader) (e : Event) : Decidable (Covered c ticker t e) :=
  match e with
  | .evaluate now ob truePrice => inferInstanceAs (Decidable (∀ side ∈ opportunity c t now ob truePrice, _))
  | .fill _ _ => inferInstanceAs (Decidable True)

/-! ### What one event does -/

section

variable {c : TraderConfig} {ticker : String} {t t' : InformedTrader}

/-- The price of the book that an order of a side takes. -/
def quoted (ob : OrderBookSnapshot) : OrderSide → ℚ
  | .buy => ob.bestAskPrice
  | .sell => ob.bestBidPrice

private theorem evaluateAndTrade_eq (now : Int) (ob : OrderBookSnapshot) (truePrice : ℚ) :
    evaluateAndTrade c ticker t now ob truePrice = match opportunity c t now ob truePrice with
      | some side =>
        if Fits c ticker t side then { t.sendSnipeOrder (quoted ob side) c.tradeQty side with lastTradeTime := now }
          else t
      | none => t := by
  unfold evaluateAndTrade opportunity
  by_cases hcool : now - t.lastTradeTime < 500
  · simp [hcool]
  by_cases hbook : ob.bestBidPrice = 0 ∨ ob.bestAskPrice = 0
  · simp [hbook]
  rw [if_neg hcool, if_neg hbook, if_neg (not_or.2 ⟨hcool, hbook⟩)]
  by_cases hbuy : truePrice > ob.bestAskPrice + c.epsilon
  · rw [if_pos hbuy, if_pos hbuy]
    rfl
  rw [if_neg hbuy, if_neg hbuy]
  by_cases hsell : truePrice < ob.bestBidPrice - c.epsilon
  · rw [if_pos hsell, if_pos hsell]
    rfl
  · rw [if_neg hsell, if_neg hsell]

private theorem step_fill {i : Nat} {qty : ℚ} {o : OpenOrder} (hget : t.openOrders[i]? = some o)
    (hqty : 0 < qty ∧ qty ≤ o.remaining) :
    step c ticker t (.fill i qty) =
      some { t with inventory := onOrderUpdate t.inventory (fillReport ticker o qty)
                    openOrders := t.openOrders.set i { o with remaining := o.remaining - qty } } := by
  rw [step, hget, Option.bind_some, if_pos hqty]

/-- What an event does to the inventory of the ticker and to the open orders. -/
inductive Moves (c : TraderConfig) (ticker : String) (t t' : InformedTrader) : Event → Prop
  | idle {now : Int} {ob : OrderBookSnapshot} {v : ℚ} (heq : t' = t) : Moves c ticker t t' (.evaluate now ob v)
  | send {now : Int} {ob : OrderBookSnapshot} {v : ℚ} {side : OrderSide} (o : OpenOrder)
      (hside : side ∈ opportunity c t now ob v) (hfits : Fits c ticker t side) (hinv : t'.inventory = t.inventory)
      (hopen : t'.openOrders = t.openOrders ++ [o]) (ho : o.side = side ∧ o.remaining = c.tradeQty) :
      Moves c ticker t t' (.evaluate now ob v)
  | fill {i : Nat} {qty : ℚ} (o : OpenOrder) (hget : t.openOrders[i]? = some o) (hqty : 0 < qty ∧ qty ≤ o.remaining)
      (hinv : t'.inventory = onOrderUpdate t.inventory (fillReport ticker o qty))
      (hopen : t'.openOrders = t.openOrders.set i { o with remaining := o.remaining - qty }) : Moves c ticker t t'
        (.fill i qty)

private theorem moves_of_step {e : Event} (h : step c ticker t e = some t') : Moves c ticker t t' e := by
  cases e with
  | evaluate now ob v =>
    obtain rfl := Option.some.inj h
    rw [evaluateAndTrade_eq]
    cases hside : opportunity c t now ob v with
    | none => exact .idle rfl
    | some side =>
      dsimp only
      by_cases hfits : Fits c ticker t side
      · rw [if_pos hfits]
        exact .send _ hside hfits rfl rfl ⟨rfl, rfl⟩
      · rw [if_neg hfits]
        exact .idle rfl
  | fill i qty =>
    obtain ⟨o, hget, h⟩ := Option.bind_eq_some_iff.1 h
    by_cases hqty : 0 < qty ∧ qty ≤ o.remaining
    · rw [if_pos hqty] at h
      obtain rfl := Option.some.inj h
      exact .fill o hget hqty rfl rfl
    · rw [if_neg hqty] at h
      cases h

/-- What a fill adds to the inventory. -/
def signed : OrderSide → ℚ → ℚ
  | .buy, q => q
  | .sell, q => -q

private theorem onOrderUpdate_fillReport (inventory : Inventory) (o : OpenOrder) (qty : ℚ) :
    onOrderUpdate inventory (fillReport ticker o qty) ticker = inventory ticker + signed o.side qty := by
  have hstatus : (fillReport ticker o qty).status = .filled ∨
      (fillReport ticker o qty).status = .partiallyFilled := by
    unfold fillReport
    split
    · exact .inl rfl
    · exact .inr rfl
  rw [onOrderUpdate, if_pos hstatus]
  cases hs : o.side with
  | buy => simp [fillReport, hs, signed]
  | sell => simp [fillReport, hs, signed, sub_eq_add_neg]

/-! ### Runs -/

/-- No order has a negative rest. -/
def Sound (t : InformedTrader) : Prop := ∀ o ∈ t.openOrders, 0 ≤ o.remaining

theorem Sound.step (hqty : 0 < c.tradeQty) (ht : Sound t) {e : Event} (h : step c ticker t e = some t') :
    Sound t' := by
  intro o' ho'
  cases moves_of_step h with
  | idle heq => exact ht o' (heq ▸ ho')
  | send o _ _ _ hopen ho =>
    rw [hopen, List.mem_append, List.mem_singleton] at ho'
    rcases ho' with ho' | rfl
    · exact ht o' ho'
    · exact ho.2 ▸ hqty.le
  | fill o _ hq _ hopen =>
    rw [hopen] at ho'
    rcases List.mem_or_eq_of_mem_set ho' with ho' | rfl
    · exact ht o' ho'
    · exact sub_nonneg.2 hq.2

/-- The limits hold even when all open orders of a side fill. -/
structure Safe (c : TraderConfig) (ticker : String) (t : InformedTrader) : Prop where
  sound : Sound t
  buys : t.inventory ticker + openQty .buy t.openOrders ≤ c.maxInventory
  sales : openQty .sell t.openOrders ≤ t.inventory ticker

private theorem Safe.withinLimits (ht : Safe c ticker t) : WithinLimits c ticker t := by
  have hbuy := openQty_nonneg .buy ht.sound
  have hsell := openQty_nonneg .sell ht.sound
  exact ⟨hsell.trans ht.sales, by linarith [ht.buys]⟩

/-- The quantity moves from the open orders to the inventory. -/
theorem Safe.step (hqty : 0 < c.tradeQty) (ht : Safe c ticker t) {e : Event} (hcov : Covered c ticker t e)
    (h : step c ticker t e = some t') : Safe c ticker t' := by
  have hsound := ht.sound.step hqty h
  have hbuys := ht.buys
  have hsales := ht.sales
  cases moves_of_step h with
  | idle heq => exact heq ▸ ht
  | send o hside hfits hinv hopen ho =>
    obtain ⟨rfl, hrem⟩ := ho
    have hroom := hcov _ hside hfits
    refine ⟨hsound, ?_, ?_⟩ <;> rw [hinv, hopen, openQty_append, openQty_cons, openQty_nil, OpenOrder.on] <;>
      cases hs : o.side <;> simp [hs, Room, hrem] at hroom ⊢ <;> linarith
  | fill o hget hq hinv hopen =>
    refine ⟨hsound, ?_, ?_⟩ <;> rw [hinv, hopen, onOrderUpdate_fillReport, openQty_set _ hget] <;>
      cases hs : o.side <;> simp [OpenOrder.on, hs, signed] <;> linarith [hq.1, hq.2]

theorem Safe.start (hinit : 0 ≤ c.initialInventory ∧ c.initialInventory ≤ c.maxInventory) :
    Safe c ticker (start c ticker) := by
  refine ⟨List.forall_mem_nil _, ?_, ?_⟩ <;> simp [InformedTrader.start, hinit]

/-- How a trader can go on when any event may happen. -/
abbrev Continues (c : TraderConfig) (ticker : String) (t₀ : InformedTrader) : InformedTrader → Prop :=
  Reach (InformedTrader.step c ticker) (fun _ _ => True) t₀

abbrev Reached (c : TraderConfig) (ticker : String) : InformedTrader → Prop := Continues c ticker (start c ticker)

private theorem Reached.sound (hqty : 0 < c.tradeQty) (h : Reached c ticker t) : Sound t :=
  Reach.invariant h (List.forall_mem_nil _) fun _ _ _ hs _ hstep => hs.step hqty hstep

/-- All open orders of a side may fill, one after the other. -/
private theorem exists_filled (side : OrderSide) (hqty : 0 < c.tradeQty) {t₀ : InformedTrader}
    (filled rest : List OpenOrder) (hsound : Sound t) (h : Continues c ticker t₀ t)
    (hopen : t.openOrders = filled ++ rest) :
    ∃ t', Continues c ticker t₀ t' ∧ t'.inventory ticker = t.inventory ticker + signed side (openQty side rest) := by
  induction rest generalizing filled t with
  | nil => exact ⟨t, h, by cases side <;> simp [signed]⟩
  | cons o rest ih =>
    by_cases hfill : o.side = side ∧ 0 < o.remaining
    · obtain ⟨rfl, hpos⟩ := hfill
      have hget : t.openOrders[filled.length]? = some o := by simp [hopen]
      have hstep : InformedTrader.step c ticker t (.fill filled.length o.remaining) = some _ :=
        step_fill hget ⟨hpos, le_rfl⟩
      obtain ⟨t', ht', hinv⟩ := ih (filled ++ [{ o with remaining := o.remaining - o.remaining }])
        (hsound.step hqty hstep) (h.next trivial hstep) (by simp [hopen])
      refine ⟨t', ht', ?_⟩
      rw [openQty_cons, OpenOrder.on, if_pos rfl, hinv]
      dsimp only
      rw [onOrderUpdate_fillReport]
      cases o.side <;> simp only [signed] <;> ring
    · -- the order has nothing open on the side
      have hzero : o.on side = 0 := by
        unfold OpenOrder.on
        split
        · rename_i hs
          have := hsound o (by simp [hopen])
          exact le_antisymm (not_lt.1 fun hpos => hfill ⟨hs, hpos⟩) this
        · rfl
      obtain ⟨t', ht', hinv⟩ := ih (filled ++ [o]) hsound h (by simp [hopen])
      exact ⟨t', ht', by rw [hinv, openQty_cons, hzero, zero_add]⟩

/-- An order that is sent without room for the open ones: if all of its side fill, a limit is passed. -/
private theorem exists_outside (hqty : 0 < c.tradeQty) (hsound : Sound t) {e : Event}
    (hcov : ¬ Covered c ticker t e) :
    ∃ t₁ t', InformedTrader.step c ticker t e = some t₁ ∧ Continues c ticker t₁ t' ∧
      ¬ WithinLimits c ticker t' := by
  cases e with
  | fill i qty => exact absurd trivial hcov
  | evaluate now ob v =>
    unfold Covered at hcov
    push Not at hcov
    obtain ⟨side, hside, hfits, hroom⟩ := hcov
    have hstep : InformedTrader.step c ticker t (.evaluate now ob v) =
        some { t.sendSnipeOrder (quoted ob side) c.tradeQty side with lastTradeTime := now } := by
      rw [InformedTrader.step, evaluateAndTrade_eq, hside]
      exact congrArg some (if_pos hfits)
    obtain ⟨t', ht', hinv⟩ := exists_filled side hqty [] _ (hsound.step hqty hstep) Reach.start rfl
    refine ⟨_, t', hstep, ht', fun hlimits => hroom ?_⟩
    obtain ⟨hlow, hhigh⟩ := hlimits
    rw [hinv] at hlow hhigh
    cases side <;> simp [sendSnipeOrder, OpenOrder.on, signed] at hlow hhigh <;> simp only [Room] <;> linarith

/-- In every run whose orders leave room for the open orders of their side the inventory stays within its limits;
from an order that does not the run can go on so that it leaves them. -/
theorem limits_of_covered (c : TraderConfig) (ticker : String)
    (hinit : 0 ≤ c.initialInventory ∧ c.initialInventory ≤ c.maxInventory) (hqty : 0 < c.tradeQty) :
    (∀ t, Reach (InformedTrader.step c ticker) (Covered c ticker) (start c ticker) t → WithinLimits c ticker t) ∧
      ∀ t e, Reached c ticker t → ¬ Covered c ticker t e →
        ∃ t₁ t', InformedTrader.step c ticker t e = some t₁ ∧ Continues c ticker t₁ t' ∧
          ¬ WithinLimits c ticker t' := by
  refine ⟨fun t h => ?_, fun t e h hcov => exists_outside hqty (h.sound hqty) hcov⟩
  exact (Reach.invariant h (Safe.start hinit) fun _ _ _ hs hcov hstep => hs.step hqty hcov hstep).withinLimits

end

/-- The defaults of the constructor, with a seed close to the limit. -/
def sampleConfig : TraderConfig := ⟨985, 1 / 20, 10, 1000⟩

def sampleBook : OrderBookSnapshot := ⟨99, 50, 100, 50⟩

/-- A buy that fills in two parts, and a sale. -/
theorem limits_sample :
    ∃ t, Reach (InformedTrader.step sampleConfig "AAPL") (Covered sampleConfig "AAPL") (start sampleConfig "AAPL") t ∧
      t.inventory "AAPL" = 995 ∧ t.openOrders.length = 2 ∧ WithinLimits sampleConfig "AAPL" t := by
  have hrun : (execIf (InformedTrader.step sampleConfig "AAPL") (Covered sampleConfig "AAPL")
      (start sampleConfig "AAPL") [.evaluate 1000 sampleBook 101, .fill 0 4, .evaluate 1100 sampleBook 101,
      .fill 0 6, .evaluate 1600 sampleBook 98]).any
      (fun t => decide (t.inventory "AAPL" = 995 ∧ t.openOrders.length = 2)) = true := by
    decide +kernel
  obtain ⟨t, hreach, h⟩ := Reach.exists_of_execIf hrun
  obtain ⟨hinv, hlen⟩ := of_decide_eq_true h
  exact ⟨t, hreach, hinv, hlen, (limits_of_covered sampleConfig "AAPL" (by decide +kernel) (by decide +kernel)).1 t
    hreach⟩

/-- Two buys, the second sent when the cooldown is over and the first is still open, and then both fill. -/
theorem second_buy_exceeds_limit :
    ∃ t, Reached sampleConfig "AAPL" t ∧ t.inventory "AAPL" = 1005 ∧ ¬ WithinLimits sampleConfig "AAPL" t := by
  have hrun : (exec (InformedTrader.step sampleConfig "AAPL") (start sampleConfig "AAPL")
      [.evaluate 1000 sampleBook 101, .evaluate 1500 sampleBook 101, .fill 0 10, .fill 1 10]).any
      (fun t => decide (t.inventory "AAPL" = 1005 ∧ ¬ WithinLimits sampleConfig "AAPL" t)) = true := by
    decide +kernel
  obtain ⟨t, hreach, h⟩ := Reach.exists_of_exec hrun
  exact ⟨t, hreach, of_decide_eq_true h⟩

end InformedTrader

end Elsa.Simulation
