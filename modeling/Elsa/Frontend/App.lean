import Mathlib.Data.List.Sort
import Elsa.Frontend.Chart

/-!
# The trading page

The state of `App.js` that the trades of the selected ticker go through.  Selecting a ticker clears it and starts to
load the history.  Until the history is there, trades that come in as messages wait in `pendingTrades`; then the
history is charted, the waiting trades after it, and all later ones at once (`handleMessage`, `settle`).

The page runs on one thread: a message, and what follows the last answer to a request for the history, are handled
without interruption.  A request that was started for another ticker may still be answered.  The chart that is drawn
is left out; the page draws it from the maps of the `Chart`.
-/

namespace Elsa.Frontend

/-- A trade in a list to be sorted: `index` in a history, `seq` among the waiting trades. -/
structure QueuedTrade where
  seq : Nat
  trade : ReceivedTrade
deriving DecidableEq

/-- A request for the history, as its closure knows it. -/
structure HistoryFetch where
  selectedTicker : String
  cancelled : Bool
deriving DecidableEq

/-- How a call of `getHistoricalTrades` ends. -/
inductive HistoryResponse
  | rejected
  | error
  | trades (trades : List Value)

structure App where
  selectedTicker : String
  bids : List BookLevel
  asks : List BookLevel
  lastTradePrice : Option Value
  recentTrades : List Value
  seenTradeIds : List Value
  chart : Chart
  pendingTrades : List QueuedTrade
  pendingTradeSeq : Nat
  historyLoaded : Bool
  fetches : List HistoryFetch

inductive Event
  | select (ticker : String)
  | message (data : Value)
  /-- The request at a position of `fetches` has its answers. -/
  | settle (fetch : Nat) (answer : String → HistoryResponse)

/-! ### Sorting -/

def compareTrades (js : Runtime) (a b : QueuedTrade) : Int :=
  if a.trade.tsMs - b.trade.tsMs ≠ 0 then a.trade.tsMs - b.trade.tsMs
  else if js.localeCompare a.trade.tradeId b.trade.tradeId ≠ 0 then js.localeCompare a.trade.tradeId b.trade.tradeId
  else a.seq - b.seq

/-- `Array.prototype.sort` is stable. -/
def sortTrades (js : Runtime) (ts : List QueuedTrade) : List QueuedTrade :=
  ts.insertionSort fun a b => compareTrades js a b ≤ 0

/-! ### The history -/

def symbolCandidates (js : Runtime) (selectedTicker : String) : List String :=
  [selectedTicker, js.toUpperCase selectedTicker, js.toLowerCase selectedTicker].eraseDups

/-- The loop over the candidates; nothing is a `throw`. -/
def fetchTrades (answer : String → HistoryResponse) : List String → (firstSuccessTrades : Option (List Value)) →
    (lastError : Bool) → Option (List Value)
  | [], some trades, _ => some trades
  | [], none, lastError => if lastError then none else some []
  | candidateSymbol :: candidates, firstSuccessTrades, lastError =>
    match answer candidateSymbol with
    | .rejected | .error => fetchTrades answer candidates firstSuccessTrades true
    | .trades candidateTrades =>
      if candidateTrades.length > 0 then some candidateTrades
      else fetchTrades answer candidates (some (firstSuccessTrades.getD candidateTrades)) lastError

/-- `trades.map(..).filter(..)`; a field of `null` cannot be read. -/
def normalizeHistorical (js : Runtime) (trades : List Value) : Option (List QueuedTrade) :=
  if trades.any Value.isNull then none
  else some (trades.zipIdx.filterMap fun t => (js.readTrade t.1).map fun trade => ⟨t.2, trade⟩)

/-- How a request for the history ends. -/
inductive HistoryOutcome
  /-- An exception goes to the `catch`. -/
  | failed
  /-- The request was for another ticker. -/
  | ignored
  | loaded (normalizedHistorical : List QueuedTrade)

def historyOutcome (js : Runtime) (fetch : HistoryFetch) (answer : String → HistoryResponse) : HistoryOutcome :=
  match fetchTrades answer (symbolCandidates js fetch.selectedTicker) none false with
  | none => .failed
  | some trades =>
    if fetch.cancelled then .ignored
    else
      match normalizeHistorical js trades with
      | none => .failed
      | some normalizedHistorical => .loaded (sortTrades js normalizedHistorical)

/-- What the `catch` makes of a waiting trade: its time is taken for a timestamp once more. -/
def retime (js : Runtime) (t : ReceivedTrade) : Option ReceivedTrade :=
  (js.normalizeTimestampMs (some (.number (.finite t.tsMs)))).map fun tsMs => { t with tsMs := tsMs }

namespace App

def start : App where
  selectedTicker := ""
  bids := []
  asks := []
  lastTradePrice := none
  recentTrades := []
  seenTradeIds := []
  chart := .empty
  pendingTrades := []
  pendingTradeSeq := 0
  historyLoaded := false
  fetches := []

def ingestAll (s : App) (ts : List ReceivedTrade) : App := { s with chart := ts.foldl Chart.ingest s.chart }

/-- The effects that depend on the selected ticker. -/
def select (js : Runtime) (s : App) (ticker : String) : App :=
  let selectedTicker := js.toUpperCase ticker
  if selectedTicker = s.selectedTicker then s
  else
    { start with
      selectedTicker := selectedTicker
      fetches := s.fetches.map (fun f => { f with cancelled := true }) ++
        if selectedTicker = "" then [] else [⟨selectedTicker, false⟩] }

/-- The trades that wait, in the order in which they are charted. -/
def sortedPending (js : Runtime) (s : App) : List ReceivedTrade :=
  (sortTrades js s.pendingTrades).map QueuedTrade.trade

/-- A request for the history ends. -/
def loadHistoricalTrades (js : Runtime) (s : App) : HistoryOutcome → App
  | .ignored => s
  | .failed =>
    { s with historyLoaded := true, pendingTrades := [] }.ingestAll ((s.sortedPending js).filterMap (retime js))
  | .loaded normalizedHistorical =>
    { s with historyLoaded := true, pendingTrades := [] }.ingestAll
      (normalizedHistorical.map QueuedTrade.trade ++ s.sortedPending js)

/-- A trade message is noted, once for its id. -/
def noteTrade (s : App) (data : Value) (tradeId : Value) : App :=
  let s := { s with lastTradePrice := data.field "price" }
  if s.seenTradeIds.any (Value.sameValueZero tradeId) then s
  else { s with seenTradeIds := s.seenTradeIds ++ [tradeId], recentTrades := (data :: s.recentTrades).take 10 }

/-- A trade message goes into the chart, or waits for the history. -/
def takeTrade (js : Runtime) (s : App) (data : Value) : App :=
  match js.readTrade data with
  | none => s
  | some t =>
    if s.historyLoaded then s.ingestAll [t]
    else
      { s with
        pendingTrades := s.pendingTrades ++ [⟨s.pendingTradeSeq, t⟩]
        pendingTradeSeq := s.pendingTradeSeq + 1 }

/-- The ticker of a message in upper case; there is none if the field is no text. -/
def msgTicker (js : Runtime) (data : Value) : Option String :=
  match coalesce (data.field "ticker") (coalesce (data.field "symbol") (some (.string ""))) with
  | some (.string s) => some (js.toUpperCase s)
  | _ => none

/-- What a message is for the selected ticker. -/
inductive Content
  | other
  | snapshot (incomingBids incomingAsks : Option Value)
  | trade (tradeId : Value)

def content (js : Runtime) (selectedTicker : String) (data : Value) : Content :=
  if msgTicker js data ≠ some selectedTicker ∨ selectedTicker = "" then .other
  else
    let incomingBids := coalesce (data.field "bids") (data.field "bid_level_aggregates")
    let incomingAsks := coalesce (data.field "asks") (data.field "ask_level_aggregates")
    if Value.isTruthy incomingBids ∧ Value.isTruthy incomingAsks then .snapshot incomingBids incomingAsks
    else
      match data.field "trade_id" with
      | none => .other
      | some tradeId => .trade tradeId

def handleMessage (js : Runtime) (s : App) (data : Value) : App :=
  match content js s.selectedTicker data with
  | .other => s
  | .snapshot incomingBids incomingAsks =>
    { s with
      bids := (js.normalizeBookLevels incomingBids).insertionSort fun a b => b.price ≤ a.price
      asks := (js.normalizeBookLevels incomingAsks).insertionSort fun a b => a.price ≤ b.price }
  | .trade tradeId => (s.noteTrade data tradeId).takeTrade js data

def step (js : Runtime) (s : App) : Event → Option App
  | .select ticker => some (s.select js ticker)
  | .message data => some (s.handleMessage js data)
  | .settle i answer => s.fetches[i]?.map fun fetch =>
    { s with fetches := s.fetches.eraseIdx i }.loadHistoricalTrades js (historyOutcome js fetch answer)

end App

end Elsa.Frontend
