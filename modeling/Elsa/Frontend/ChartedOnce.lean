import Elsa.Base.Totals
import Elsa.Frontend.App

/-!
# How often a trade is charted

A run of the page is recorded with the trades it has received for the selected ticker, from the history and as
messages, and with those it has charted.  The chart of the page is the chart of the latter (`Ok.chart_eq`), and what
was received is charted or waits (`Ok.same`).

So once nothing waits any more, the volumes of each timeframe add up to the quantities received, where a trade
counts as often as it came in.  `seenTradeIds` keeps a trade from being listed twice among the recent trades, but
nothing keeps it from being charted twice: each trade is charted once exactly when none was received twice
(`chartedOnce_iff`).
-/

namespace Elsa.Frontend

open Base

/-- Trades with a quantity and a time. -/
def ReceivedTrade.WellFormed (t : ReceivedTrade) : Prop := 0 < t.quantity ∧ 0 < t.tsMs

instance (t : ReceivedTrade) : Decidable t.WellFormed := inferInstanceAs (Decidable (_ ∧ _))

namespace App

/-- The trade of a message for the selected ticker. -/
def incoming (js : Runtime) (s : App) (data : Value) : Option ReceivedTrade :=
  match content js s.selectedTicker data with
  | .trade _ => js.readTrade data
  | _ => none

/-- The selected ticker changes. -/
def resets (js : Runtime) (s : App) : Event → Bool
  | .select ticker => js.toUpperCase ticker ≠ s.selectedTicker
  | _ => false

/-- The trades that an event brings to the page. -/
def brings (js : Runtime) (s : App) : Event → List ReceivedTrade
  | .select _ => []
  | .message data => (s.incoming js data).toList
  | .settle i answer =>
    match s.fetches[i]?.map fun fetch => historyOutcome js fetch answer with
    | some (.loaded history) => history.map QueuedTrade.trade
    | _ => []

/-- The trades that are charted at an event. -/
def charts (js : Runtime) (s : App) : Event → List ReceivedTrade
  | .select _ => []
  | .message data => if s.historyLoaded then (s.incoming js data).toList else []
  | .settle i answer =>
    match s.fetches[i]?.map fun fetch => historyOutcome js fetch answer with
    | some (.loaded history) => history.map QueuedTrade.trade ++ s.sortedPending js
    | some .failed => (s.sortedPending js).filterMap (retime js)
    | _ => []

/-- A message that describes a trade of the selected ticker brings this trade. -/
private theorem brings_message (js : Runtime) {s : App} {v : Value} {text : String} {t : ReceivedTrade}
    (h : v.Describes text t) (hticker : js.toUpperCase text = s.selectedTicker) (hne : s.selectedTicker ≠ "") :
    s.brings js (.message v) = [t] := by
  have hcontent : content js s.selectedTicker v = .trade (.string t.tradeId) := by
    have hmsg : msgTicker js v = some s.selectedTicker := by
      rw [msgTicker, h.ticker, ← hticker]
      rfl
    have hbids : Value.isTruthy (coalesce (v.field "bids") (v.field "bid_level_aggregates")) = false := by
      rw [h.no_book.1, h.no_book.2]
      rfl
    simp [content, hmsg, hne, hbids, h.trade_id]
  rw [brings, incoming, hcontent]
  simp only [js.readTrade_of_describes h]
  rfl

/-- An answer whose entries describe trades brings these trades. -/
private theorem brings_history (js : Runtime) {s : App} {i : Nat} {answer : String → HistoryResponse}
    {fetch : HistoryFetch} {vs : List Value} {ts : List ReceivedTrade} (hfetch : s.fetches[i]? = some fetch)
    (hlive : fetch.cancelled = false)
    (hvs : fetchTrades answer (symbolCandidates js fetch.selectedTicker) none false = some vs)
    (h : List.Forall₂ (fun v t => ∃ text, Value.Describes v text t) vs ts) :
    (s.brings js (.settle i answer)).Perm ts := by
  have hnull : vs.any Value.isNull = false := by
    clear hvs
    induction h with
    | nil => rfl
    | @cons v _ _ _ hdesc _ ih =>
      obtain ⟨text, hdesc⟩ := hdesc
      rw [List.any_cons, ih, Bool.or_false]
      cases v with
      | null => cases hdesc.ticker
      | _ => rfl
  have hread : ∀ k, (vs.zipIdx k).filterMap (fun t => (js.readTrade t.1).map fun trade => QueuedTrade.mk t.2 trade) =
      (ts.zipIdx k).map fun t => ⟨t.2, t.1⟩ := by
    clear hvs hnull
    induction h with
    | nil => exact fun _ => rfl
    | cons hdesc _ ih =>
      intro k
      obtain ⟨text, hdesc⟩ := hdesc
      rw [List.zipIdx_cons, List.zipIdx_cons, List.filterMap_cons, js.readTrade_of_describes hdesc, ih]
      rfl
  have hout : historyOutcome js fetch answer =
      .loaded (sortTrades js (ts.zipIdx.map fun t => ⟨t.2, t.1⟩)) := by
    simp only [historyOutcome, hvs, hlive, normalizeHistorical, hnull, hread 0, Bool.false_eq_true, if_false]
  have hperm := (List.perm_insertionSort (fun a b => compareTrades js a b ≤ 0)
    (ts.zipIdx.map fun t => QueuedTrade.mk t.2 t.1)).map QueuedTrade.trade
  rw [brings, hfetch, Option.map_some, hout]
  refine hperm.trans (.of_eq ?_)
  rw [List.map_map]
  exact List.zipIdx_map_fst 0 ts

end App

/-- The page, with the trades it has received and charted since the ticker was selected. -/
structure Session where
  app : App
  received : List ReceivedTrade
  charted : List ReceivedTrade

namespace Session

def start : Session := ⟨.start, [], []⟩

def step (js : Runtime) (s : Session) (e : Event) : Option Session :=
  (s.app.step js e).map fun app =>
    if s.app.resets js e then ⟨app, [], []⟩ else ⟨app, s.received ++ s.app.brings js e,
      s.charted ++ s.app.charts js e⟩

/-- The trades of an event are well formed. -/
def WellFormed (js : Runtime) (s : Session) (e : Event) : Prop := ∀ t ∈ s.app.brings js e, t.WellFormed

instance (js : Runtime) (s : Session) (e : Event) : Decidable (s.WellFormed js e) :=
  inferInstanceAs (Decidable (∀ t ∈ _, _))

end Session

/-- What tells how often a trade is counted. -/
def ReceivedTrade.key (t : ReceivedTrade) : String × ℚ := (t.tradeId, t.quantity)

/-! ### What holds in every session -/

namespace Session

/-- The chart is the one of the trades charted, and what was received is charted or waits. -/
structure Ok (s : Session) : Prop where
  chart_eq : s.app.chart = chartOf s.charted
  same : ((s.charted ++ s.app.pendingTrades.map QueuedTrade.trade).map ReceivedTrade.key).Perm
    (s.received.map ReceivedTrade.key)
  waiting : s.app.historyLoaded = true → s.app.pendingTrades = []
  wellFormed : ∀ t ∈ s.received, t.WellFormed
  pending : ∀ t ∈ s.app.pendingTrades, t.trade.WellFormed

end Session

private theorem sortTrades_perm (js : Runtime) (ts : List QueuedTrade) :
    (sortTrades js ts).Perm ts := List.perm_insertionSort _ ts

private theorem App.sortedPending_perm (js : Runtime) (s : App) :
    (s.sortedPending js).Perm (s.pendingTrades.map QueuedTrade.trade) :=
  (sortTrades_perm js _).map _

/-- A trade with a time keeps its id and its quantity in the `catch`. -/
private theorem retime_key (js : Runtime) {t : ReceivedTrade} (h : 0 < t.tsMs) :
    ∃ t', retime js t = some t' ∧ t'.key = t.key := by
  obtain ⟨ts, hts⟩ := Option.isSome_iff_exists.1 (js.normalizeTimestampMs_isSome h)
  exact ⟨{ t with tsMs := ts }, by rw [retime, hts]; rfl, rfl⟩

private theorem filterMap_retime_key {js : Runtime} {ts : List ReceivedTrade} (h : ∀ t ∈ ts, 0 < t.tsMs) :
    (ts.filterMap (retime js)).map ReceivedTrade.key = ts.map ReceivedTrade.key := by
  induction ts with
  | nil => rfl
  | cons t ts ih =>
    obtain ⟨t', ht', hkey⟩ := retime_key js (h t List.mem_cons_self)
    rw [List.filterMap_cons, ht', List.map_cons, List.map_cons, hkey, ih fun u hu => h u (List.mem_cons_of_mem _ hu)]

namespace App

/-- What an event that does not select another ticker changes, as far as the chart goes. -/
structure Moves (js : Runtime) (s : App) (e : Event) (s' : App) : Prop where
  chart_eq : s'.chart = (s.charts js e).foldl Chart.ingest s.chart
  same : ((s.charts js e ++ s'.pendingTrades.map QueuedTrade.trade).map ReceivedTrade.key).Perm
    ((s.pendingTrades.map QueuedTrade.trade ++ s.brings js e).map ReceivedTrade.key)
  waiting : s'.historyLoaded = true → s'.pendingTrades = []
  pending : ∀ t ∈ s'.pendingTrades, t.trade ∈ s.pendingTrades.map QueuedTrade.trade ++ s.brings js e

variable {js : Runtime} {s s' : App}

/-- An event that brings nothing and charts nothing. -/
theorem Moves.of_eq {e : Event} (hc : s.charts js e = []) (hb : s.brings js e = []) (hchart : s'.chart = s.chart)
    (hpending : s'.pendingTrades = s.pendingTrades) (hwait : s'.historyLoaded = true → s'.pendingTrades = []) :
    s.Moves js e s' where
  chart_eq := by rw [hchart, hc]; rfl
  same := by rw [hc, hb, hpending, List.append_nil, List.nil_append]
  waiting := hwait
  pending t ht := List.mem_append_left _ (List.mem_map_of_mem (hpending ▸ ht))

@[simp] theorem noteTrade_chart (data tradeId : Value) : (s.noteTrade data tradeId).chart = s.chart := by
  unfold noteTrade; dsimp only; split <;> rfl

@[simp] theorem noteTrade_pendingTrades (data tradeId : Value) :
    (s.noteTrade data tradeId).pendingTrades = s.pendingTrades := by
  unfold noteTrade; dsimp only; split <;> rfl

@[simp] theorem noteTrade_historyLoaded (data tradeId : Value) :
    (s.noteTrade data tradeId).historyLoaded = s.historyLoaded := by
  unfold noteTrade; dsimp only; split <;> rfl

/-- A message with a trade: the trade is charted at once, or it waits. -/
private theorem moves_takeTrade (hwait : s.historyLoaded = true → s.pendingTrades = []) {data : Value}
    {t : ReceivedTrade} (hin : s.incoming js data = some t) (hread : js.readTrade data = some t) (tradeId : Value) :
    s.Moves js (.message data) ((s.noteTrade data tradeId).takeTrade js data) := by
  have hbrings : s.brings js (.message data) = [t] := by rw [brings, hin]; rfl
  simp only [takeTrade, hread, noteTrade_historyLoaded]
  by_cases hl : s.historyLoaded = true
  · have hcharts : s.charts js (.message data) = [t] := by rw [charts, if_pos hl, hin]; rfl
    rw [if_pos hl]
    exact
      { chart_eq := by simp [hcharts, ingestAll]
        same := by simp [hcharts, hbrings, ingestAll, hwait hl]
        waiting := by simp [ingestAll, hwait hl]
        pending := by simp [ingestAll, hwait hl] }
  · have hcharts : s.charts js (.message data) = [] := by rw [charts, if_neg hl]
    rw [if_neg hl]
    exact
      { chart_eq := by simp [hcharts]
        same := by simp [hcharts, hbrings]
        waiting := by simp [hl]
        pending := by
          intro q hq
          rw [hbrings]
          simp only [noteTrade_pendingTrades, List.mem_append, List.mem_singleton] at hq
          rcases hq with hq | rfl
          · exact List.mem_append_left _ (List.mem_map_of_mem hq)
          · exact List.mem_append_right _ List.mem_cons_self }

private theorem moves_message (hwait : s.historyLoaded = true → s.pendingTrades = []) (data : Value) :
    s.Moves js (.message data) (s.handleMessage js data) := by
  -- a message that brings no trade
  have hnone : ∀ s', s.incoming js data = none → s'.chart = s.chart → s'.pendingTrades = s.pendingTrades →
      s'.historyLoaded = s.historyLoaded → s.Moves js (.message data) s' := fun s' hin hchart hpending hloaded =>
    .of_eq (by simp [charts, hin]) (by simp [brings, hin]) hchart hpending (by rw [hloaded, hpending]; exact hwait)
  unfold handleMessage
  cases hcontent : content js s.selectedTicker data with
  | other => exact hnone _ (by rw [incoming, hcontent]) rfl rfl rfl
  | snapshot bids asks => exact hnone _ (by rw [incoming, hcontent]) rfl rfl rfl
  | trade tradeId =>
    have hin : s.incoming js data = js.readTrade data := by rw [incoming, hcontent]
    cases hread : js.readTrade data with
    | none =>
      have htake : (s.noteTrade data tradeId).takeTrade js data = s.noteTrade data tradeId := by rw [takeTrade, hread]
      exact hnone _ (hin.trans hread) (by simp [htake]) (by simp [htake]) (by simp [htake])
    | some t => exact moves_takeTrade hwait (hin.trans hread) hread tradeId

private theorem moves_settle (hpos : ∀ t ∈ s.pendingTrades, t.trade.WellFormed)
    (hwait : s.historyLoaded = true → s.pendingTrades = []) {i : Nat} {answer : String → HistoryResponse}
    {fetch : HistoryFetch} (hf : s.fetches[i]? = some fetch) :
    s.Moves js (.settle i answer)
      ({ s with fetches := s.fetches.eraseIdx i }.loadHistoricalTrades js (historyOutcome js fetch answer)) := by
  cases hout : historyOutcome js fetch answer with
  | ignored => exact .of_eq (by simp [charts, hf, hout]) (by simp [brings, hf, hout]) rfl rfl hwait
  | failed =>
    have hcharts : s.charts js (.settle i answer) = (s.sortedPending js).filterMap (retime js) := by
      simp [charts, hf, hout]
    have hbrings : s.brings js (.settle i answer) = [] := by simp [brings, hf, hout]
    have hsorted : ∀ t ∈ s.sortedPending js, 0 < t.tsMs := by
      intro t ht
      obtain ⟨q, hq, rfl⟩ := List.mem_map.1 ((s.sortedPending_perm js).mem_iff.1 ht)
      exact (hpos q hq).2
    exact
      { chart_eq := by rw [hcharts]; rfl
        same := by
          rw [hcharts, hbrings, List.append_nil]
          simp only [loadHistoricalTrades, ingestAll, List.map_nil, List.append_nil]
          rw [filterMap_retime_key hsorted]
          exact (s.sortedPending_perm js).map _
        waiting := fun _ => rfl
        pending := by simp [loadHistoricalTrades, ingestAll] }
  | loaded history =>
    have hcharts : s.charts js (.settle i answer) = history.map QueuedTrade.trade ++ s.sortedPending js := by
      simp [charts, hf, hout]
    have hbrings : s.brings js (.settle i answer) = history.map QueuedTrade.trade := by simp [brings, hf, hout]
    exact
      { chart_eq := by rw [hcharts]; rfl
        same := by
          rw [hcharts, hbrings]
          simp only [loadHistoricalTrades, ingestAll, List.map_nil, List.append_nil]
          exact (List.perm_append_comm.trans ((s.sortedPending_perm js).append_right _)).map _
        waiting := fun _ => rfl
        pending := by simp [loadHistoricalTrades, ingestAll] }

private theorem moves_step {e : Event} (hpos : ∀ t ∈ s.pendingTrades, t.trade.WellFormed)
    (hwait : s.historyLoaded = true → s.pendingTrades = []) (hres : s.resets js e = false)
    (h : s.step js e = some s') : s.Moves js e s' := by
  cases e with
  | select ticker =>
    have hsame : js.toUpperCase ticker = s.selectedTicker := by simpa [resets] using hres
    have hs : s.select js ticker = s := if_pos hsame
    cases h
    rw [hs]
    exact .of_eq rfl rfl rfl rfl hwait
  | message data =>
    cases h
    exact moves_message hwait data
  | settle i answer =>
    obtain ⟨fetch, hf, rfl⟩ := Option.map_eq_some_iff.1 h
    exact moves_settle hpos hwait hf

/-- Another ticker is selected: nothing is charted and nothing waits. -/
private theorem step_of_resets {e : Event} (hres : s.resets js e = true) (h : s.step js e = some s') :
    s'.chart = .empty ∧ s'.pendingTrades = [] ∧ s'.historyLoaded = false := by
  cases e with
  | select ticker =>
    have hother : js.toUpperCase ticker ≠ s.selectedTicker := by simpa [resets] using hres
    cases h
    rw [select, if_neg hother]
    exact ⟨rfl, rfl, rfl⟩
  | message data => cases hres
  | settle i answer => cases hres

end App

namespace Session

variable {js : Runtime} {s s' : Session}

theorem Ok.start : start.Ok :=
  ⟨rfl, .refl _, fun _ => rfl, fun _ ht => absurd ht List.not_mem_nil, fun _ ht => absurd ht List.not_mem_nil⟩

theorem Ok.step {e : Event} (hok : s.Ok) (hg : s.WellFormed js e) (h : s.step js e = some s') : s'.Ok := by
  obtain ⟨app, happ, rfl⟩ := Option.map_eq_some_iff.1 h
  split
  · rename_i hres
    obtain ⟨hchart, hpending, hloaded⟩ := App.step_of_resets hres happ
    exact
      { chart_eq := hchart
        same := by rw [hpending]; exact .refl _
        waiting := fun _ => hpending
        wellFormed := fun t ht => absurd ht List.not_mem_nil
        pending := fun t ht => absurd (hpending ▸ ht) List.not_mem_nil }
  · rename_i hres
    have hmove := App.moves_step hok.pending hok.waiting (Bool.eq_false_iff.2 hres) happ
    exact
      { chart_eq := by rw [hmove.chart_eq, hok.chart_eq, chartOf_append]
        same := by
          -- the trades charted before, what the event did, and what waited before
          have hnew := hmove.same.append_left (s.charted.map ReceivedTrade.key)
          have hold := hok.same.append_right ((s.app.brings js e).map ReceivedTrade.key)
          simp only [List.map_append, List.append_assoc] at hnew hold ⊢
          exact hnew.trans hold
        waiting := hmove.waiting
        wellFormed := by
          intro t ht
          rcases List.mem_append.1 ht with ht | ht
          · exact hok.wellFormed t ht
          · exact hg t ht
        pending := by
          intro q hq
          rcases List.mem_append.1 (hmove.pending q hq) with hq | hq
          · obtain ⟨p, hp, hpq⟩ := List.mem_map.1 hq
            exact hpq ▸ hok.pending p hp
          · exact hg _ hq }

private theorem Ok.of_reach (h : Reach (Session.step js) (WellFormed js) Session.start s) : s.Ok :=
  h.invariant Ok.start fun _ _ _ hok hg hs => hok.step hg hs

/-- Once nothing waits, exactly the trades received are charted. -/
private theorem Ok.keys_perm (hok : s.Ok) (hloaded : s.app.historyLoaded = true) :
    (s.charted.map ReceivedTrade.key).Perm (s.received.map ReceivedTrade.key) := by
  have hsame := hok.same
  rwa [hok.waiting hloaded, List.map_nil, List.append_nil] at hsame

private theorem Ok.tradeIds_perm (hok : s.Ok) (hloaded : s.app.historyLoaded = true) :
    (s.charted.map ReceivedTrade.tradeId).Perm (s.received.map ReceivedTrade.tradeId) := by
  simpa [Function.comp_def, ReceivedTrade.key] using (hok.keys_perm hloaded).map Prod.fst

private theorem Ok.volumeTotal_eq (hok : s.Ok) (hloaded : s.app.historyLoaded = true) {i : Int}
    (hi : i ∈ timeframes) : s.app.chart.volumeTotal i = (s.received.map ReceivedTrade.quantity).sum := by
  have hperm : (s.charted.map ReceivedTrade.quantity).Perm (s.received.map ReceivedTrade.quantity) := by
    simpa [Function.comp_def, ReceivedTrade.key] using (hok.keys_perm hloaded).map Prod.snd
  rw [hok.chart_eq, volumeTotal_chartOf hi, hperm.sum_eq]

/-- The volumes of each timeframe add up to the quantities of the different trades received, and no trade
contributes twice to a candle or a volume bar. -/
def ChartedOnce (s : Session) (quantity : String → ℚ) : Prop :=
  ∀ i ∈ timeframes,
    s.app.chart.volumeTotal i = ((s.received.map ReceivedTrade.tradeId).dedup.map quantity).sum ∧
    ∀ b, ((contributors i b s.charted).map ReceivedTrade.tradeId).Nodup

/-- A message that describes a trade of the selected ticker brings this trade, and an answer to a request for the
history whose entries describe trades brings all of them.  Once the history is loaded and nothing waits, the volumes
of each timeframe add up to the quantities received, and a candle and a volume bar are made from the trades charted
that fall into their bucket.  Each trade is charted once exactly when none was received twice. -/
theorem chartedOnce_iff (js : Runtime) (s : Session) (h : Reach (step js) (WellFormed js) start s)
    (hloaded : s.app.historyLoaded = true) (quantity : String → ℚ)
    (hq : ∀ t ∈ s.received, t.quantity = quantity t.tradeId) :
    (∀ (app : App) (v : Value) (text : String) (t : ReceivedTrade), v.Describes text t →
      js.toUpperCase text = app.selectedTicker → app.selectedTicker ≠ "" → app.brings js (.message v) = [t]) ∧
    (∀ (app : App) (i : Nat) (answer : String → HistoryResponse) (fetch : HistoryFetch) (vs : List Value)
      (ts : List ReceivedTrade), app.fetches[i]? = some fetch → fetch.cancelled = false →
      fetchTrades answer (symbolCandidates js fetch.selectedTicker) none false = some vs →
      List.Forall₂ (fun v t => ∃ text, v.Describes text t) vs ts → (app.brings js (.settle i answer)).Perm ts) ∧
    (∀ i ∈ timeframes,
      s.app.chart.volumeTotal i = (s.received.map ReceivedTrade.quantity).sum ∧
      ∀ b, s.app.chart.bucket i b = .of b (contributors i b s.charted)) ∧
    (s.ChartedOnce quantity ↔ (s.received.map ReceivedTrade.tradeId).Nodup) := by
  have hok := Ok.of_reach h
  have hsum : (s.received.map ReceivedTrade.quantity).sum =
      ((s.received.map ReceivedTrade.tradeId).map quantity).sum := by
    rw [List.map_map]
    exact congrArg List.sum (List.map_congr_left hq)
  have hpos : ∀ id ∈ s.received.map ReceivedTrade.tradeId, 0 < quantity id := by
    intro id hid
    obtain ⟨t, ht, rfl⟩ := List.mem_map.1 hid
    exact hq t ht ▸ (hok.wellFormed t ht).1
  refine ⟨fun app v text t hdesc hticker hne => App.brings_message js hdesc hticker hne,
    fun app i answer fetch vs ts hfetch hlive hvs hdesc => App.brings_history js hfetch hlive hvs hdesc,
    fun i hi => ⟨hok.volumeTotal_eq hloaded hi, fun b => ?_⟩, ?_, ?_⟩
  · rw [hok.chart_eq, bucket_chartOf hi]
  · intro honce
    have hminute : (60000 : Int) ∈ timeframes := List.mem_cons_self
    have htotal := (honce _ hminute).1
    rw [hok.volumeTotal_eq hloaded hminute, hsum] at htotal
    exact (sum_eq_sum_dedup_iff hpos).1 htotal
  · intro hnd i hi
    refine ⟨?_, fun b => ?_⟩
    · rw [hok.volumeTotal_eq hloaded hi, hsum, (sum_eq_sum_dedup_iff hpos).2 hnd]
    · have hcharted := (hok.tradeIds_perm hloaded).nodup_iff.2 hnd
      exact hcharted.sublist (List.filter_sublist.map _)

/-! ### Sample runs -/

/-- A runtime that knows the letters of the Latin alphabet and reads no numbers from texts. -/
def sampleRuntime : Runtime where
  toUpperCase s := String.ofList (s.toList.map Char.toUpper)
  toLowerCase s := String.ofList (s.toList.map Char.toLower)
  localeCompare a b := if a < b then -1 else if a = b then 0 else 1
  parse _ := .nan
  print _ := ""
  printObject _ := "[object Object]"

def sampleTrade (tradeId : String) : Value :=
  .object [("ticker", .string "GME"), ("trade_id", .string tradeId), ("price", .number (.finite 10)),
    ("quantity", .number (.finite 5)), ("create_timestamp", .number (.finite 1700000000000))]

/-- A history with one trade. -/
def sampleHistory (tradeId : String) : String → HistoryResponse := fun _ => .trades [sampleTrade tradeId]

/-- Three trades come in, one before the history, one with it and one after it. -/
theorem chartedOnce_sample : ∃ s, Reach (step sampleRuntime) (WellFormed sampleRuntime) start s ∧
    s.app.historyLoaded = true ∧ s.received.map ReceivedTrade.tradeId = ["8", "7", "9"] ∧ s.ChartedOnce fun _ =>
      5 := by
  have hrun : (execIf (step sampleRuntime) (WellFormed sampleRuntime) start
      [.select "gme", .message (sampleTrade "8"), .settle 0 (sampleHistory "7"), .message (sampleTrade "9")]).any
      (fun s => decide (s.app.historyLoaded = true ∧ s.received.map ReceivedTrade.tradeId = ["8", "7", "9"] ∧
        ∀ t ∈ s.received, t.quantity = 5)) = true := by decide +kernel
  obtain ⟨s, hreach, hs⟩ := Reach.exists_of_execIf hrun
  obtain ⟨hloaded, hids, hq⟩ := of_decide_eq_true hs
  have honce := (chartedOnce_iff sampleRuntime s hreach hloaded (fun _ => 5) hq).2.2.2
  exact ⟨s, hreach, hloaded, hids, honce.2 (by rw [hids]; decide)⟩

/-- A trade is made while the history is fetched: it comes in as a message and with the history. -/
theorem charted_twice : ∃ s, Reach (step sampleRuntime) (WellFormed sampleRuntime) start s ∧
    s.app.historyLoaded = true ∧ s.received.map ReceivedTrade.tradeId = ["7", "7"] ∧
    ∀ i ∈ timeframes, s.app.chart.volumeTotal i = 10 ∧
      ((s.received.map ReceivedTrade.tradeId).dedup.map fun _ => (5 : ℚ)).sum = 5 ∧
      (contributors i (candleTimeOf i 1700000000000) s.charted).map ReceivedTrade.tradeId = ["7", "7"] := by
  have hrun : (execIf (step sampleRuntime) (WellFormed sampleRuntime) start
      [.select "gme", .message (sampleTrade "7"), .settle 0 (sampleHistory "7")]).any
      (fun s => decide (s.app.historyLoaded = true ∧ s.received.map ReceivedTrade.tradeId = ["7", "7"] ∧
        ∀ i ∈ timeframes, s.app.chart.volumeTotal i = 10 ∧
          ((s.received.map ReceivedTrade.tradeId).dedup.map fun _ => (5 : ℚ)).sum = 5 ∧
          (contributors i (candleTimeOf i 1700000000000) s.charted).map ReceivedTrade.tradeId = ["7", "7"])) =
          true := by
    decide +kernel
  obtain ⟨s, hreach, hs⟩ := Reach.exists_of_execIf hrun
  exact ⟨s, hreach, of_decide_eq_true hs⟩

end Session

end Elsa.Frontend
