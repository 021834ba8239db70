import Mathlib.Algebra.Order.Ring.Rat
import Mathlib.Data.List.Induction
import Mathlib.Logic.Function.Basic
import Elsa.Base.Window
import Elsa.MarketData.Codec

/-!
# The market data of a trading bot

`MarketDataHandler::process_message` keeps the recent trades of each ticker in a queue, and next to it the sum and the
sum of squares of their prices, from which `calculate_variance` is computed.  A message that cannot be read is logged
and changes nothing.

A message with a ticker, a trade id, a price and a quantity is read as the trade it describes, whatever else it holds
(`Says`, `readMessage_of_isTrade`); the trades that the market data service sends are such messages (`says_toJson`).
The queue is the window over all trades of the ticker, and the sums are those of the window (`Tracks`); so the
variance is the sample variance of the window, and the guard against a negative variance never acts
(`variance_of_messages`).
-/

namespace Elsa.Simulation

open Base MarketData MarketData.NlohmannJson

structure OrderBookSnapshot where
  bestBidPrice : ℚ
  bestBidQty : ℚ
  bestAskPrice : ℚ
  bestAskQty : ℚ
deriving DecidableEq

/-- `OrderBookSnapshot{}`. -/
def OrderBookSnapshot.default : OrderBookSnapshot := ⟨0, 0, 0, 0⟩

structure Trade where
  price : ℚ
  quantity : ℚ
  timestamp : Int
deriving DecidableEq

structure TradeStats where
  sumX : ℚ
  sumX2 : ℚ
  count : Nat
deriving DecidableEq

namespace TradeStats

/-- `TradeStats{}`. -/
def default : TradeStats := ⟨0, 0, 0⟩

def addTrade (s : TradeStats) (price : ℚ) : TradeStats := ⟨s.sumX + price, s.sumX2 + price * price, s.count + 1⟩

def removeTrade (s : TradeStats) (price : ℚ) : TradeStats := ⟨s.sumX - price, s.sumX2 - price * price, s.count - 1⟩

/-- The variable `var` of `get_variance`. -/
def rawVariance (s : TradeStats) : ℚ := (s.sumX2 - s.sumX * s.sumX / s.count) / (s.count - 1 : Nat)

def getVariance (s : TradeStats) : ℚ :=
  if s.count < 2 then 0 else if 0 < s.rawVariance then s.rawVariance else 0

end TradeStats

def maxTradesWindow : Nat := 1000

/-- The maps of the handler; a key that was never used stands for the default value that `operator[]` makes. -/
structure MarketDataHandler where
  trades : String → List Trade
  tradeStats : String → TradeStats
  orderbooks : String → OrderBookSnapshot

namespace MarketDataHandler

def init : MarketDataHandler := ⟨fun _ => [], fun _ => .default, fun _ => .default⟩

/-! ### Messages -/

section

variable {J : Type} [NlohmannJson J]

/-- The trade of a message. -/
def readTrade (j : J) : Except JsonError Trade := do
  let price ← getDouble (← field j "price")
  let quantity ← getDouble (← field j "quantity")
  let timestamp ← if contains j "create_timestamp" then do getInt64 (← field j "create_timestamp") else pure 0
  return ⟨price, quantity, timestamp⟩

/-- The best price and quantity of a side; a side that is missing or empty leaves the values as they are. -/
def readBest (j : J) (side : String) (price quantity : ℚ) : Except JsonError (ℚ × ℚ) := do
  if contains j side then do
    let levels ← field j side
    if NlohmannJson.empty levels then return (price, quantity)
    else do
      let level ← elem levels 0
      return (← getDouble (← field level "price"), ← getDouble (← field level "quantity"))
  else return (price, quantity)

def readOrderBook (j : J) : Except JsonError OrderBookSnapshot := do
  let ob := OrderBookSnapshot.default
  let bid ← readBest j "bids" ob.bestBidPrice ob.bestBidQty
  let ask ← readBest j "asks" ob.bestAskPrice ob.bestAskQty
  return ⟨bid.1, bid.2, ask.1, ask.2⟩

/-- What a message asks for. -/
inductive Update
  | trade (ticker : String) (t : Trade)
  | orderbook (ticker : String) (ob : OrderBookSnapshot)
  | none

def readMessage (j : J) : Except JsonError Update := do
  if contains j "ticker" then do
    let ticker ← getString (← field j "ticker")
    if contains j "trade_id" then return .trade ticker (← readTrade j)
    else return .orderbook ticker (← readOrderBook j)
  else return .none

end

/-- The trade goes into the queue and the sums, and the oldest one out of both if there are too many. -/
def addTrade (h : MarketDataHandler) (ticker : String) (t : Trade) : MarketDataHandler :=
  let trades := h.trades ticker ++ [t]
  let stats := (h.tradeStats ticker).addTrade t.price
  match trades with
  | oldest :: rest =>
    if maxTradesWindow < trades.length then
      { h with
        trades := Function.update h.trades ticker rest
        tradeStats := Function.update h.tradeStats ticker (stats.removeTrade oldest.price) }
    else
      { h with
        trades := Function.update h.trades ticker trades
        tradeStats := Function.update h.tradeStats ticker stats }
  | [] => h

variable {J : Type} [NlohmannJson J]

/-- `process_message`; `none` stands for a text that is not JSON. -/
def processMessage (h : MarketDataHandler) (msg : Option J) : MarketDataHandler :=
  match msg with
  | none => h
  | some j =>
    match readMessage j with
    | .ok (.trade ticker t) => h.addTrade ticker t
    | .ok (.orderbook ticker ob) => { h with orderbooks := Function.update h.orderbooks ticker ob }
    | .ok .none => h
    | .error _ => h

def calculateVariance (h : MarketDataHandler) (ticker : String) : ℚ := (h.tradeStats ticker).getVariance

/-- The handler after some messages. -/
def run (msgs : List (Option J)) : MarketDataHandler := msgs.foldl processMessage init

/-! ### What a message says -/

/-- A number of the library, of any of its three types. -/
inductive IsNumber : J → ℚ → Prop
  | integer (n : Int) : IsNumber (numberInteger n) n
  | unsigned (n : Nat) : IsNumber (numberUnsigned n) n
  | float (x : ℚ) : IsNumber (numberFloat x) x

/-- The fields of a message that describes a trade; it may have others. -/
structure IsTrade (fields : List (String × J)) (ticker : String) (t : Trade) : Prop where
  ticker : fields.lookup "ticker" = some (string ticker)
  trade_id : (fields.lookup "trade_id").isSome
  price : ∃ j, fields.lookup "price" = some j ∧ IsNumber j t.price
  quantity : ∃ j, fields.lookup "quantity" = some j ∧ IsNumber j t.quantity
  timestamp : (fields.lookup "create_timestamp" = none ∧ t.timestamp = 0) ∨
    ∃ n < 9223372036854775808, fields.lookup "create_timestamp" = some (numberUnsigned n) ∧ t.timestamp = n

/-- The ticker and the trade that a message describes.  Without a ticker or a trade id, and where the text is not
JSON, there is no trade. -/
inductive Says : Option J → Option (String × Trade) → Prop
  | trade {fields ticker t} (h : IsTrade fields ticker t) : Says (some (object fields)) (some (ticker, t))
  | noTrade {fields} (h : fields.lookup "ticker" = none ∨ fields.lookup "trade_id" = none) :
    Says (some (object fields)) none
  | notJson : Says none none

/-- The trades of a ticker. -/
def tradesOf (ticker : String) (said : List (Option (String × Trade))) : List Trade :=
  said.filterMap fun m => m.bind fun t => if t.1 = ticker then some t.2 else none

private theorem getDouble_of_isNumber {j : J} {x : ℚ} (h : IsNumber j x) : getDouble j = .ok x := by
  cases h with
  | integer n => exact getDouble_integer n
  | unsigned n => exact getDouble_unsigned n
  | float x => exact getDouble_float x

/-- A message that describes a trade is read as this trade. -/
theorem readMessage_of_isTrade {fields : List (String × J)} {ticker : String} {t : Trade}
    (h : IsTrade fields ticker t) : readMessage (object fields) = .ok (.trade ticker t) := by
  obtain ⟨price, hprice, hp⟩ := h.price
  obtain ⟨quantity, hquantity, hq⟩ := h.quantity
  have htrade : readTrade (object fields) = .ok t := by
    unfold readTrade
    rw [field_object hprice, field_object hquantity, contains_object]
    simp only [Except.bind, bind, getDouble_of_isNumber hp, getDouble_of_isNumber hq]
    rcases h.timestamp with ⟨hnone, htime⟩ | ⟨n, hn, hsome, htime⟩
    · rw [hnone]
      simp only [Option.isSome_none, Bool.false_eq_true, if_false, pure, Except.pure, ← htime]
    · rw [hsome, field_object hsome]
      simp only [Option.isSome_some, if_true, getInt64_unsigned hn, pure, Except.pure, ← htime]
  unfold readMessage
  rw [contains_object, contains_object, h.ticker, field_object h.ticker, if_pos Option.isSome_some]
  simp only [Except.bind, bind, getString_string, h.trade_id, if_true, htrade]
  rfl

/-- A message without a ticker or without a trade id is not read as a trade. -/
private theorem readMessage_of_noTrade {fields : List (String × J)}
    (h : fields.lookup "ticker" = none ∨ fields.lookup "trade_id" = none) (ticker : String) (t : Trade) :
    readMessage (object fields) ≠ .ok (.trade ticker t) := by
  intro hread
  unfold readMessage at hread
  rw [contains_object, contains_object] at hread
  rcases h with h | h
  · rw [h] at hread
    cases hread
  · rw [h] at hread
    split at hread
    · obtain ⟨j, -, hread⟩ := bind_eq_ok.1 hread
      obtain ⟨ticker', -, hread⟩ := bind_eq_ok.1 hread
      obtain ⟨ob, -, hread⟩ := bind_eq_ok.1 hread
      cases hread
    · cases hread

/-! ### What is kept -/

/-- The queue is the window over the trades of a ticker, and the sums are those of the window. -/
structure Tracks (h : MarketDataHandler) (ticker : String) (trades : List Trade) : Prop where
  queue : h.trades ticker = window maxTradesWindow trades
  sum_x : (h.tradeStats ticker).sumX = ((window maxTradesWindow trades).map Trade.price).sum
  sum_x2 : (h.tradeStats ticker).sumX2 = sumSq ((window maxTradesWindow trades).map Trade.price)
  count : (h.tradeStats ticker).count = (window maxTradesWindow trades).length

section

variable {h : MarketDataHandler} {ticker : String} {trades : List Trade}

/-- The queue and the sums of a ticker after one more trade. -/
private theorem addTrade_eq {oldest : Trade} {rest : List Trade} {t : Trade}
    (hq : h.trades ticker ++ [t] = oldest :: rest) :
    h.addTrade ticker t =
      if maxTradesWindow < (h.trades ticker ++ [t]).length then
        { h with
          trades := Function.update h.trades ticker rest
          tradeStats :=
            Function.update h.tradeStats ticker (((h.tradeStats ticker).addTrade t.price).removeTrade oldest.price) }
      else
        { h with
          trades := Function.update h.trades ticker (h.trades ticker ++ [t])
          tradeStats := Function.update h.tradeStats ticker ((h.tradeStats ticker).addTrade t.price) } := by
  simp only [addTrade, hq]

private theorem addTrade_of_ne {ticker' : String} (hne : ticker ≠ ticker') (t : Trade) :
    (h.addTrade ticker' t).trades ticker = h.trades ticker ∧
    (h.addTrade ticker' t).tradeStats ticker = h.tradeStats ticker := by
  cases hq : h.trades ticker' ++ [t] with
  | nil => exact absurd hq (by simp)
  | cons oldest rest =>
    rw [addTrade_eq hq]
    split
    · exact ⟨Function.update_of_ne hne _ _, Function.update_of_ne hne _ _⟩
    · exact ⟨Function.update_of_ne hne _ _, Function.update_of_ne hne _ _⟩

/-- There is room in the queue. -/
private theorem addTrade_of_le (h : MarketDataHandler) (t : Trade)
    (hle : (h.trades ticker ++ [t]).length ≤ maxTradesWindow) :
    (h.addTrade ticker t).trades ticker = h.trades ticker ++ [t] ∧
      (h.addTrade ticker t).tradeStats ticker = (h.tradeStats ticker).addTrade t.price := by
  cases hq : h.trades ticker ++ [t] with
  | nil => exact absurd hq (by simp)
  | cons oldest rest =>
    rw [addTrade_eq hq, if_neg (not_lt.2 hle), ← hq]
    exact ⟨Function.update_self _ _ _, Function.update_self _ _ _⟩

/-- The oldest trade leaves the queue. -/
private theorem addTrade_of_lt {t oldest : Trade} {rest : List Trade}
    (hlt : maxTradesWindow < (h.trades ticker ++ [t]).length) (hq : h.trades ticker ++ [t] = oldest :: rest) :
    (h.addTrade ticker t).trades ticker = rest ∧
      (h.addTrade ticker t).tradeStats ticker =
        ((h.tradeStats ticker).addTrade t.price).removeTrade oldest.price := by
  rw [addTrade_eq hq, if_pos hlt]
  exact ⟨Function.update_self _ _ _, Function.update_self _ _ _⟩

private theorem sumSq_concat (xs : List ℚ) (x : ℚ) : sumSq (xs ++ [x]) = sumSq xs + x * x := by
  simp [sumSq]

private theorem sumSq_cons (x : ℚ) (xs : List ℚ) : sumSq (x :: xs) = x * x + sumSq xs := by
  simp [sumSq]

namespace Tracks

theorem start (ticker : String) : Tracks init ticker [] := ⟨rfl, rfl, rfl, rfl⟩

/-- One more trade of the ticker: it is added to the sums before the oldest one is taken out of them. -/
private theorem addTrade (ht : Tracks h ticker trades) (t : Trade) :
    Tracks (h.addTrade ticker t) ticker (trades ++ [t]) := by
  have hcount : (h.trades ticker ++ [t]).length = (window maxTradesWindow trades).length + 1 := by
    rw [ht.queue, List.length_append]
    rfl
  by_cases hroom : (window maxTradesWindow trades).length < maxTradesWindow
  · obtain ⟨hqueue, hstats⟩ := addTrade_of_le h t (show (h.trades ticker ++ [t]).length ≤ maxTradesWindow by omega)
    have hnext := window_concat_of_lt hroom t
    constructor
    · rw [hqueue, ht.queue, hnext]
    · rw [hstats, hnext, TradeStats.addTrade, ht.sum_x, List.map_append, List.sum_append]
      simp
    · rw [hstats, hnext, TradeStats.addTrade, ht.sum_x2, List.map_append]
      exact (sumSq_concat _ _).symm
    · rw [hstats, hnext, TradeStats.addTrade, ht.count, List.length_append]
      rfl
  · cases hq : h.trades ticker ++ [t] with
    | nil => exact absurd hq (by simp)
    | cons oldest rest =>
      obtain ⟨hqueue, hstats⟩ := addTrade_of_lt (show maxTradesWindow < (h.trades ticker ++ [t]).length by omega) hq
      rw [ht.queue] at hq
      have hnext : window maxTradesWindow (trades ++ [t]) = rest := by
        rw [window_concat_of_le (by decide) (not_lt.1 hroom), hq]
        rfl
      have hmap : (window maxTradesWindow trades).map Trade.price ++ [t.price] =
          oldest.price :: rest.map Trade.price := by
        rw [← List.map_cons, ← hq, List.map_append]
        rfl
      constructor
      · rw [hqueue, hnext]
      · rw [hstats, hnext, TradeStats.removeTrade, TradeStats.addTrade, ht.sum_x]
        have hsum := congrArg List.sum hmap
        rw [List.sum_append, List.sum_singleton, List.sum_cons] at hsum
        rw [hsum, add_sub_cancel_left]
      · rw [hstats, hnext, TradeStats.removeTrade, TradeStats.addTrade, ht.sum_x2]
        have hsum := congrArg sumSq hmap
        rw [sumSq_concat, sumSq_cons] at hsum
        rw [hsum, add_sub_cancel_left]
      · rw [hstats, hnext, TradeStats.removeTrade, TradeStats.addTrade, ht.count, Nat.add_sub_cancel]
        have hlen := congrArg List.length hq
        rw [List.length_append, List.length_singleton, List.length_cons] at hlen
        dsimp only
        omega

/-- Nothing that the record depends on has changed. -/
theorem of_eq {h' : MarketDataHandler} (ht : Tracks h ticker trades) (hq : h'.trades ticker = h.trades ticker)
    (hs : h'.tradeStats ticker = h.tradeStats ticker) : Tracks h' ticker trades :=
  ⟨hq ▸ ht.queue, hs ▸ ht.sum_x, hs ▸ ht.sum_x2, hs ▸ ht.count⟩

/-- A message brings one more trade of the ticker, or none. -/
private theorem processMessage (ht : Tracks h ticker trades) {msg : Option J} {said : Option (String × Trade)}
    (hsaid : Says msg said) : Tracks (h.processMessage msg) ticker (trades ++ tradesOf ticker [said]) := by
  cases hsaid with
  | notJson => exact (List.append_nil trades).symm ▸ ht
  | @noTrade fields hno =>
    have hnone : tradesOf ticker [none] = [] := rfl
    rw [hnone, List.append_nil]
    simp only [MarketDataHandler.processMessage]
    cases hread : readMessage (object fields) with
    | error e => exact ht
    | ok update =>
      cases update with
      | none => exact ht
      | orderbook ticker' ob => exact ht.of_eq rfl rfl
      | trade ticker' t => exact absurd hread (readMessage_of_noTrade hno ticker' t)
  | @trade fields ticker' t hsaid =>
    unfold MarketDataHandler.processMessage
    simp only [readMessage_of_isTrade hsaid]
    by_cases heq : ticker' = ticker
    · subst heq
      have hone : tradesOf ticker' [some (ticker', t)] = [t] := by simp [tradesOf]
      rw [hone]
      exact ht.addTrade t
    · have hnone : tradesOf ticker [some (ticker', t)] = [] := by simp [tradesOf, heq]
      obtain ⟨hq, hs⟩ := addTrade_of_ne (h := h) (Ne.symm heq) t
      rw [hnone, List.append_nil]
      exact ht.of_eq hq hs

end Tracks

/-- After any messages. -/
private theorem tracks_run (ticker : String) {msgs : List (Option J × Option (String × Trade))}
    (hsaid : ∀ m ∈ msgs, Says m.1 m.2) :
    Tracks (run (msgs.map Prod.fst)) ticker (tradesOf ticker (msgs.map Prod.snd)) := by
  induction msgs using List.reverseRecOn with
  | nil => exact Tracks.start ticker
  | append_singleton msgs msg ih =>
    have hrest := ih fun m hm => hsaid m (List.mem_append_left _ hm)
    have hmsg := hsaid msg (List.mem_append_right _ (List.mem_singleton_self msg))
    rw [run, List.map_append, List.map_append, List.foldl_append, tradesOf, List.filterMap_append]
    exact hrest.processMessage hmsg

/-! ### The variance -/

private theorem Tracks.rawVariance_eq (ht : Tracks h ticker trades) (h2 : 2 ≤ (h.tradeStats ticker).count) :
    (h.tradeStats ticker).rawVariance = sampleVariance ((window maxTradesWindow trades).map Trade.price) := by
  have hlen : ((window maxTradesWindow trades).map Trade.price).length = (h.tradeStats ticker).count := by
    rw [List.length_map, ht.count]
  rw [sampleVariance_eq (by omega), hlen, ← ht.sum_x, ← ht.sum_x2, TradeStats.rawVariance, Nat.cast_pred (by omega)]

/-- After any messages the queue of a ticker holds the last trades of the ticker that they describe, in their order,
the sums are theirs, and the variance is their sample variance; what is computed is not negative, so that it is never
replaced by 0. -/
theorem variance_of_messages (msgs : List (Option J × Option (String × Trade))) (hsaid : ∀ m ∈ msgs, Says m.1 m.2)
    (ticker : String) :
    let trades := window 1000 (tradesOf ticker (msgs.map Prod.snd))
    let handler := run (msgs.map Prod.fst)
    let stats := handler.tradeStats ticker
    handler.trades ticker = trades ∧ stats.sumX = (trades.map Trade.price).sum ∧
      stats.sumX2 = (trades.map fun t => t.price * t.price).sum ∧ stats.count = trades.length ∧
      handler.calculateVariance ticker = sampleVariance (trades.map Trade.price) ∧
      (2 ≤ stats.count → 0 ≤ stats.rawVariance) := by
  have ht := tracks_run ticker hsaid
  intro trades handler stats
  have hraw : 2 ≤ stats.count → 0 ≤ stats.rawVariance := fun h2 => by
    rw [ht.rawVariance_eq h2]
    exact sampleVariance_nonneg _
  refine ⟨ht.queue, ht.sum_x, ?_, ht.count, ?_, hraw⟩
  · rw [ht.sum_x2, sumSq, List.map_map]
    rfl
  · show stats.getVariance = _
    unfold TradeStats.getVariance
    by_cases h2 : stats.count < 2
    · rw [if_pos h2, sampleVariance, if_pos]
      rw [List.length_map, ← show stats.count = trades.length from ht.count]
      exact h2
    · have hsame : stats.rawVariance = sampleVariance (trades.map Trade.price) := ht.rawVariance_eq (not_lt.1 h2)
      rw [if_neg h2, ← hsame]
      split
      · rfl
      · rename_i hpos
        exact le_antisymm (hraw (not_lt.1 h2)) (not_lt.1 hpos)

end

/-! ### The messages of the market data service -/

/-- A trade as the service sends it: in units, not in hundredths. -/
theorem says_toJson (t : Elsa.Trade) (h : t.createTimestamp < 9223372036854775808) :
    Says (some (t.toJson : J))
      (some (t.ticker, ⟨t.price / multiplier, t.quantity / multiplier, t.createTimestamp⟩)) :=
  .trade
    { ticker := rfl
      trade_id := rfl
      price := ⟨_, rfl, .float _⟩
      quantity := ⟨_, rfl, .float _⟩
      timestamp := .inr ⟨t.createTimestamp, h, rfl, rfl⟩ }

/-- A snapshot as the service sends it. -/
private theorem says_snapshot (s : TopOrderBookLevelAggregates) : Says (some (s.toJson : J)) none :=
  .noTrade (.inr (rfl))

/-- A share at 4, a text that is not JSON, a snapshot, a share of another ticker and a share at 6. -/
def sampleMessages : List (Option Json × Option (String × Trade)) :=
  let trade (ticker : String) (price : Int) : Elsa.Trade :=
    ⟨ticker, price, 100, "7", "ann", "bob", 1, 2, true, 1700000000000⟩
  [(some (trade "GME" 400).toJson, some ("GME", ⟨4, 1, 1700000000000⟩)), (none, none),
    (some (TopOrderBookLevelAggregates.toJson ⟨"GME", [], [], 1700000000000⟩), none),
    (some (trade "AMC" 900).toJson, some ("AMC", ⟨9, 1, 1700000000000⟩)),
    (some (trade "GME" 600).toJson, some ("GME", ⟨6, 1, 1700000000000⟩))]

private theorem says_sampleTrade (ticker : String) (price : Int) {x : ℚ} (hx : price / multiplier = x) :
    Says (some (Elsa.Trade.toJson ⟨ticker, price, 100, "7", "ann", "bob", 1, 2, true, 1700000000000⟩ : J))
      (some (ticker, ⟨x, 1, 1700000000000⟩)) := by
  have h := says_toJson (J := J) ⟨ticker, price, 100, "7", "ann", "bob", 1, 2, true, 1700000000000⟩
    (show 1700000000000 < 9223372036854775808 by decide)
  have hone : ((100 : Int) : ℚ) / multiplier = 1 := by norm_num [multiplier]
  rw [hx, hone] at h
  exact h

theorem variance_sampleMessages :
    (run (sampleMessages.map Prod.fst)).trades "GME" = [⟨4, 1, 1700000000000⟩, ⟨6, 1, 1700000000000⟩] ∧
    (run (sampleMessages.map Prod.fst)).calculateVariance "GME" = 2 := by
  have hsaid : ∀ m ∈ sampleMessages, Says m.1 m.2 := by
    simp only [sampleMessages, List.forall_mem_cons]
    exact ⟨says_sampleTrade "GME" 400 (by norm_num [multiplier]), .notJson, says_snapshot _,
      says_sampleTrade "AMC" 900 (by norm_num [multiplier]), says_sampleTrade "GME" 600 (by norm_num [multiplier]),
      List.forall_mem_nil _⟩
  obtain ⟨htrades, -, -, -, hvariance, -⟩ := variance_of_messages sampleMessages hsaid "GME"
  have hwindow : window 1000 (tradesOf "GME" (sampleMessages.map Prod.snd)) =
      [⟨4, 1, 1700000000000⟩, ⟨6, 1, 1700000000000⟩] := by decide
  rw [hwindow] at htrades hvariance
  refine ⟨htrades, hvariance.trans ?_⟩
  norm_num [sampleVariance, sqDist, mean]

end MarketDataHandler

end Elsa.Simulation
