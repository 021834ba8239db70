import Elsa.Database.AsyncWriter
import Elsa.System.Persistence
import Elsa.System.Wired

/-!
# The exchange and its records

The order manager hands rows about orders and trades to the asynchronous writer, while the writer runs in any
interleaving with the two processes of the exchange.

* If the sender's library never throws, the rows of the trades that were handed to `flush` are those of the first
  trades that the order manager has settled, in their order, and once the writer is closed those of all of them
  (`trades_recorded`).  Whichever of these rows the database returns and in whatever order, `query_trades` makes
  settled trades of them.
* Whatever is thrown and whichever rows the database returns, `query_orders` never shows that an order was filled or
  that a cancellation was confirmed (`orders_never_filled`): execution reports are not recorded, and the rows of
  confirmed cancellations go to another table.
-/

namespace Elsa

open Base

/-- The write task of a call; balances are written at once and elsewhere. -/
def DatabaseCall.task? : DatabaseCall → Option WriteTask
  | .insertOrder orderId newOrder valid => some (.orderInsertion orderId newOrder valid)
  | .insertCancelRequest cancelRequest valid => some (.cancelRequestInsertion cancelRequest valid)
  | .insertTrade trade => some (.tradeInsertion trade)
  | .updateBalance .. => none
  | .insertCancelResponse cancelResponse => some (.cancelResponseInsertion cancelResponse)

structure Recording where
  exchange : Exchange
  writer : AsyncWriter

inductive RecordingEvent
  | exchange (e : Event)
  | writer (e : WriterEvent)

namespace RecordingEvent

/-- A request has the shape that the gateway gives it, and the sender's library does not throw. -/
def Quiet : RecordingEvent → Prop
  | .exchange e => Exchange.Fed e
  | .writer e => e.throws = false

instance (e : RecordingEvent) : Decidable e.Quiet :=
  match e with
  | .exchange e => inferInstanceAs (Decidable (Exchange.Fed e))
  | .writer e => inferInstanceAs (Decidable (e.throws = false))

end RecordingEvent

namespace Exchange

/-- The write tasks of a step. -/
def tasks (cfg : Config) (A : Arith) (s : Exchange) (e : Event) :
    List WriteTask := (s.output cfg A e).database.filterMap DatabaseCall.task?

end Exchange

namespace Recording

variable (cfg : Config) (serverName : String)

def start (balances : BalanceChecker) (flushThreshold flushInterval now : Int) : Recording :=
  ⟨.start cfg balances, .new flushThreshold flushInterval now⟩

def step (s : Recording) : RecordingEvent → Option Recording
  | .exchange e =>
    (s.exchange.step cfg .machine e).bind fun exchange =>
      (exec (AsyncWriter.step .machine serverName) s.writer ((s.exchange.tasks cfg .machine e).map .insert)).map
        fun writer =>
        ⟨exchange, writer⟩
  | .writer e =>
    if e.inserted = [] then (s.writer.step .machine serverName e).map fun writer => { s with writer } else none

/-- The rows that were sent or are on their way. -/
def rows (s : Recording) : List Row := s.writer.rows .machine serverName

end Recording

/-! ### The tasks of a step -/

variable {cfg : Config} {A : Arith} {serverName : String}

private theorem task?_of_persistBalance {bc : BalanceChecker} {username symbol : String} {call : DatabaseCall}
    (h : persistBalance cfg bc username symbol = .ok call) : call.task? = none := by
  simp only [persistBalance, bind_eq_ok] at h
  obtain ⟨userId, -, balance, -, h⟩ := h
  cases h
  rfl

/-- The trades that are recorded for a message are the trade that it is. -/
private theorem updateDatabase_trades {om : OrderManager} {valid : Option Bool} {c : Container}
    {calls : List DatabaseCall} (h : updateDatabase cfg om valid c = .ok calls) :
    (calls.filterMap DatabaseCall.task?).filterMap WriteTask.trade? = c.trade?.toList := by
  cases c with
  | newOrderSingle o =>
    simp only [updateDatabase, bind_eq_ok] at h
    obtain ⟨-, -, id, -, v, -, h⟩ := h
    cases h
    rfl
  | cancelOrderRequest r =>
    simp only [updateDatabase, bind_eq_ok] at h
    obtain ⟨-, -, v, -, h⟩ := h
    cases h
    rfl
  | executionReport r =>
    cases h
    rfl
  | trade t =>
    simp only [updateDatabase, bind_eq_ok] at h
    obtain ⟨c₁, h₁, c₂, h₂, c₃, h₃, c₄, h₄, h⟩ := h
    cases h
    have hupdates : [c₁, c₂, c₃, c₄].filterMap DatabaseCall.task? = [] := by
      simp [task?_of_persistBalance h₁, task?_of_persistBalance h₂, task?_of_persistBalance h₃,
        task?_of_persistBalance h₄]
    show (WriteTask.tradeInsertion t :: [c₁, c₂, c₃, c₄].filterMap DatabaseCall.task?).filterMap WriteTask.trade? =
        [t]
    rw [hupdates]
    rfl
  | cancelOrderResponse r =>
    simp only [updateDatabase] at h
    split at h
    · simp only [bind_eq_ok] at h
      obtain ⟨info, -, -, -, update, hu, h⟩ := h
      cases h
      have hupdate : [update].filterMap DatabaseCall.task? = [] := by simp [task?_of_persistBalance hu]
      show (WriteTask.cancelResponseInsertion r :: [update].filterMap DatabaseCall.task?).filterMap
          WriteTask.trade? = []
      rw [hupdate]
      rfl
    · cases h
      rfl
  | fillCostQuery q => cases h
  | fillCostResponse r => cases h

private theorem finishRequest_database {gw : Int} {ids : Nat → String} {om om' : OrderManager} {c : Container}
    {r : Except String (Option Int)} {out : Output} (h : finishRequest cfg A gw ids om c r = .ok (om', out)) :
    ∃ om valid, updateDatabase cfg om (some valid) c = .ok out.database := by
  cases r with
  | ok cost =>
    simp only [finishRequest, bind_eq_ok] at h
    obtain ⟨verdict, -, out₁, -, database, hdatabase, h⟩ := h
    cases h
    exact ⟨_, _, hdatabase⟩
  | error err =>
    simp only [finishRequest, bind_eq_ok] at h
    obtain ⟨out₁, -, database, hdatabase, h⟩ := h
    cases h
    exact ⟨_, _, hdatabase⟩

private theorem Container.IsRequest.trade?_eq_none {c : Container} (h : c.IsRequest) : c.trade? = none := by
  cases c with
  | trade t => cases h
  | _ => rfl

private theorem finishRequest_trades {gw : Int} {ids : Nat → String} {om om' : OrderManager} {c : Container}
    {r : Except String (Option Int)} {out : Output} (hc : c.IsRequest)
    (h : finishRequest cfg A gw ids om c r = .ok (om', out)) :
    (out.database.filterMap DatabaseCall.task?).filterMap WriteTask.trade? = [] := by
  obtain ⟨om₁, valid, hdatabase⟩ := finishRequest_database h
  rw [updateDatabase_trades hdatabase, hc.trade?_eq_none]
  rfl

private theorem handleRequest_trades {sent : Bool} {gw : Int} {ids : Nat → String} {om om' : OrderManager}
    {c : Container} {out : Output} (h : handleRequest cfg A sent gw ids om c = .ok (om', .done out)) :
    (out.database.filterMap DatabaseCall.task?).filterMap WriteTask.trade? = [] := by
  obtain ⟨om₁, c₁, r, hc, hfinish⟩ := finishRequest_of_handleRequest h
  exact finishRequest_trades hc hfinish

namespace Exchange

variable {s s' : Exchange}

/-- A step records the trades that it settles. -/
private theorem settled_of_step {e : Event} (h : s.step cfg A e = some s') :
    s'.history.settled = s.history.settled ++ (s.tasks cfg A e).filterMap WriteTask.trade? := by
  cases step_iff.1 h with
  | request c gw ids om out hw hr =>
    simp only [tasks, output, hr, handleRequest_trades hr, List.append_nil]
    rfl
  | query c gw ids om o q hw hr => simp only [tasks, output, hr, List.filterMap_nil, List.append_nil]
  | answer o gw a answers ids om out hw ha hr =>
    obtain ⟨cost, -, hfinish⟩ := bind_eq_ok.1 hr
    have hnone := finishRequest_trades (c := .newOrderSingle o) trivial hfinish
    simp only [tasks, output, hw, ha, hr, hnone, List.append_nil]
    rfl
  | matching => exact (List.append_nil _).symm
  | response c responses ids om out hw hc hr =>
    obtain ⟨-, reports, database, -, hdatabase, rfl⟩ := handleResponse_eq_ok_iff.1 hr
    simp only [tasks, output, hc, hr, updateDatabase_trades hdatabase]
    simp only [History.settled, History.process, List.filterMap_append]
    cases htrade : c.trade? <;> simp [htrade]

/-- The trades that are processed have numbers in range. -/
private theorem InRange.processed_wirable (h : s.InRange) {e : Event} (hstep : s.step cfg A e = some s')
    (hp : ∀ c ∈ s.history.processed, c.Wirable) : ∀ c ∈ s'.history.processed, c.Wirable := by
  cases step_iff.1 hstep with
  | request | query | answer | matching => exact hp
  | response c responses ids om out hw hc hr =>
    intro d hd
    rcases List.mem_append.1 hd with hd | hd
    · exact hp d hd
    · rw [List.mem_singleton.1 hd]
      exact h.responses c (hc ▸ List.mem_cons_self)

end Exchange

/-! ### Rows of a table -/

/-- A task that the order manager gives. -/
def WriteTask.IsManagers : WriteTask → Prop
  | .executionInsertion _ => False
  | _ => True

private theorem DatabaseCall.task?_isManagers {call : DatabaseCall} {task : WriteTask} (h : call.task? = some task) :
    task.IsManagers := by
  cases call with
  | updateBalance => cases h
  | _ =>
    cases h
    trivial

/-- The rows in the table of the trades are those of the trades. -/
private theorem filter_tradesTable (A : Arith) (serverName : String) (tasks : List WriteTask) :
    (tasks.map (WriteTask.row A serverName)).filter (fun r => r.table = tradesTable serverName) =
      (tasks.filterMap WriteTask.trade?).map fun t => (WriteTask.tradeInsertion t).row A serverName := by
  induction tasks with
  | nil => rfl
  | cons task tasks ih =>
    rw [List.map_cons, List.filter_cons, ih]
    cases task with
    | tradeInsertion t =>
      rw [if_pos (by rw [decide_eq_true_iff, row_table_eq_tradesTable]; exact Option.some_ne_none t)]
      rfl
    | _ =>
      rw [if_neg (by rw [decide_eq_true_iff, row_table_eq_tradesTable]; exact fun hne => hne rfl)]
      rfl

private theorem mapM_readTrade (A : Arith) (serverName : String) {trades : List TradeContainer}
    (h : ∀ t ∈ trades, t.InRange) :
    (trades.map fun t => (WriteTask.tradeInsertion t).row A serverName).mapM Row.readTrade =
      some (trades.map TradeContainer.tradeRow) := by
  induction trades with
  | nil => rfl
  | cons t trades ih =>
    rw [List.map_cons, List.mapM_cons, readTrade_row (h t List.mem_cons_self), ih fun t' ht' =>
      h t' (List.mem_cons_of_mem t ht')]
    rfl

private theorem queryTrades_rows (A : Arith) (serverName : String) {tasks : List WriteTask}
    (h : ∀ t ∈ tasks.filterMap WriteTask.trade?, t.InRange) :
    queryTrades serverName (tasks.map (WriteTask.row A serverName)) =
      some ((tasks.filterMap WriteTask.trade?).map TradeContainer.tradeRow) := by
  rw [queryTrades, filter_tradesTable, mapM_readTrade A serverName h]

namespace Recording

/-! ### Runs -/

variable {s s' : Recording}

/-- What every step of a recorded exchange keeps, with the tasks that were given to the writer so far. -/
structure Keeps (cfg : Config) (serverName : String) (s : Recording) (tasks : List WriteTask) : Prop where
  inRange : s.exchange.InRange
  serves : s.exchange.Serves cfg
  processed : ∀ c ∈ s.exchange.history.processed, c.Wirable
  sound : s.writer.Sound
  rows : s.rows serverName = tasks.map (WriteTask.row .machine serverName)
  trades : tasks.filterMap WriteTask.trade? = s.exchange.history.settled

private theorem start_keeps {balances : BalanceChecker} {flushThreshold flushInterval now : Int} :
    (start cfg balances flushThreshold flushInterval now).Keeps cfg serverName [] where
  inRange := Exchange.start_inRange balances
  serves := Exchange.start_serves
  processed _ h := by cases h
  sound := AsyncWriter.new_sound
  rows := rfl
  trades := rfl

theorem Keeps.step {tasks : List WriteTask} (h : s.Keeps cfg serverName tasks) {e : RecordingEvent} (hquiet : e.Quiet)
    (hstep : s.step cfg serverName e = some s') : ∃ tasks', s'.Keeps cfg serverName tasks' := by
  cases e with
  | exchange e =>
    simp only [Recording.step, Option.bind_eq_some_iff, Option.map_eq_some_iff] at hstep
    obtain ⟨x, hx, w, hw, rfl⟩ := hstep
    have hmove := h.serves.move_of_step hquiet hx
    obtain ⟨hsound, hrows⟩ := h.sound.insert hw
    refine ⟨tasks ++ s.exchange.tasks cfg .machine e, ?_⟩
    refine ⟨h.inRange.move h.serves hquiet hmove, h.serves.move hmove, h.inRange.processed_wirable hx h.processed,
      hsound, ?_, ?_⟩
    · have hbefore := h.rows
      rw [Recording.rows] at hbefore
      rw [Recording.rows, hrows, hbefore, List.map_append]
    · rw [List.filterMap_append, h.trades, Exchange.settled_of_step hx]
  | writer e =>
    simp only [Recording.step, Option.ite_none_right_eq_some, Option.map_eq_some_iff] at hstep
    obtain ⟨hins, w, hw, rfl⟩ := hstep
    have hturn := AsyncWriter.turn_of_step hw
    have hrows := hturn.rows_eq hquiet
    rw [hins, List.map_nil, List.append_nil] at hrows
    exact ⟨tasks, h.inRange, h.serves, h.processed, hturn.sound h.sound hquiet, hrows.trans h.rows, h.trades⟩

private theorem keeps_of_exec {balances : BalanceChecker} {flushThreshold flushInterval now : Int}
    {es : List RecordingEvent} (hes : ∀ e ∈ es, e.Quiet)
    (h : exec (step cfg serverName) (start cfg balances flushThreshold flushInterval now) es = some s) :
    ∃ tasks, s.Keeps cfg serverName tasks := by
  refine exec_invariant (I := fun s => ∃ tasks, s.Keeps cfg serverName tasks) ?_ ⟨[], start_keeps⟩ hes h
  rintro t e t' ⟨tasks, ht⟩ hq hstep
  exact ht.step hq hstep

/-- What was sent are the rows of the first tasks. -/
private theorem Keeps.sent {tasks : List WriteTask} (h : s.Keeps cfg serverName tasks) : ∃ n,
    s.writer.sent = (tasks.take n).map (WriteTask.row .machine serverName) ∧
      (s.writer.location = .closed → tasks.take n = tasks) := by
  have hrows := h.rows
  rw [Recording.rows, AsyncWriter.rows, List.append_assoc] at hrows
  have hprefix := congrArg (List.take s.writer.sent.length) hrows
  rw [List.take_left, ← List.map_take] at hprefix
  refine ⟨s.writer.sent.length, hprefix, fun hclosed => ?_⟩
  rw [h.sound.buffer_nil hclosed, h.sound.queue_nil (Or.inr hclosed), List.map_nil, List.append_nil,
    List.append_nil] at hrows
  rw [hrows, List.length_map, List.take_length]

/-- The trades that were settled are in range. -/
private theorem Keeps.settled_inRange {tasks : List WriteTask} (h : s.Keeps cfg serverName tasks) :
    ∀ t ∈ s.exchange.history.settled, t.InRange := by
  intro t ht
  obtain ⟨c, hc, htrade⟩ := List.mem_filterMap.1 ht
  cases c with
  | trade t' =>
    cases htrade
    exact (h.processed _ hc).fits
  | _ => cases htrade

/-- Each row of the trades that is in range is read, as a trade of the list. -/
private theorem exists_queryTrades {trades : List TradeContainer} (hrange : ∀ t ∈ trades, t.InRange) {rows : List Row}
    (h : ∀ r ∈ rows, r.table = tradesTable serverName →
      ∃ t ∈ trades, r = (WriteTask.tradeInsertion t).row A serverName) :
    ∃ found, queryTrades serverName rows = some found ∧ ∀ row ∈ found, ∃ t ∈ trades, row = t.tradeRow := by
  have hread : ∀ r ∈ rows.filter (fun r => r.table = tradesTable serverName),
      ∃ t ∈ trades, r.readTrade = some t.tradeRow := by
    intro r hr
    obtain ⟨hr, htable⟩ := List.mem_filter.1 hr
    obtain ⟨t, ht, rfl⟩ := h r hr (of_decide_eq_true htable)
    exact ⟨t, ht, readTrade_row (hrange t ht)⟩
  unfold queryTrades
  generalize rows.filter (fun r => r.table = tradesTable serverName) = table at hread ⊢
  induction table with
  | nil => exact ⟨[], rfl, fun _ hrow => absurd hrow List.not_mem_nil⟩
  | cons r rs ih =>
    obtain ⟨⟨t, ht, hr⟩, hrs⟩ := List.forall_mem_cons.1 hread
    obtain ⟨found, hfound, hall⟩ := ih hrs
    refine ⟨t.tradeRow :: found, ?_, List.forall_mem_cons.2 ⟨⟨t, ht, rfl⟩, hall⟩⟩
    rw [List.mapM_cons, hr, hfound]
    rfl

/-- The rows of the trades that were handed to `flush` are those of the first trades that the order manager has
settled, in their order; with what is on its way, and once the writer is closed, they are those of all of them.  Of
whichever of these rows the database returns, `query_trades` makes settled trades. -/
theorem trades_recorded {balances : BalanceChecker} {flushThreshold flushInterval now : Int}
    {es : List RecordingEvent} (hes : ∀ e ∈ es, e.Quiet)
    (h : exec (step cfg serverName) (start cfg balances flushThreshold flushInterval now) es = some s) :
    queryTrades serverName (s.rows serverName) = some (s.exchange.history.settled.map TradeContainer.tradeRow) ∧
      (∃ trades, trades <+: s.exchange.history.settled ∧
        queryTrades serverName s.writer.sent = some (trades.map TradeContainer.tradeRow) ∧
        (s.writer.location = .closed → trades = s.exchange.history.settled)) ∧
      ∀ rows : List Row, rows ⊆ s.writer.sent → ∃ found, queryTrades serverName rows = some found ∧
        ∀ row ∈ found, ∃ t ∈ s.exchange.history.settled, row = t.tradeRow := by
  obtain ⟨tasks, hk⟩ := keeps_of_exec hes h
  have hrange := hk.settled_inRange
  obtain ⟨n, hsent, hclosed⟩ := hk.sent
  have hfirst : (tasks.take n).filterMap WriteTask.trade? <+: s.exchange.history.settled :=
    hk.trades ▸ (List.take_prefix n tasks).filterMap WriteTask.trade?
  refine ⟨?_, ⟨(tasks.take n).filterMap WriteTask.trade?, hfirst, ?_, fun hc => ?_⟩, fun rows hrows => ?_⟩
  · rw [hk.rows, queryTrades_rows .machine serverName (hk.trades ▸ hrange), hk.trades]
  · rw [hsent]
    exact queryTrades_rows .machine serverName fun t ht => hrange t (hfirst.subset ht)
  · rw [hclosed hc, hk.trades]
  · refine exists_queryTrades (A := .machine) hrange fun r hr htable => ?_
    have hmem := hrows hr
    rw [hsent] at hmem
    obtain ⟨task, htask, rfl⟩ := List.mem_map.1 hmem
    cases task with
    | tradeInsertion t =>
      exact ⟨t, hfirst.subset (List.mem_filterMap.2 ⟨_, htask, rfl⟩), rfl⟩
    | _ => exact absurd rfl (row_table_eq_tradesTable.1 htable)

/-- A trade is settled, and the destructor runs after the first flush. -/
def sampleRecording : List RecordingEvent :=
  Exchange.sampleTrading.map .exchange ++ [.exchange (.response Exchange.noIds), .writer .load] ++
    List.replicate 4 (.writer (.append false)) ++
    [.writer (.flush 200 false), .writer .destroy, .writer .load, .writer .join, .writer (.append false),
      .writer (.finish false)]

theorem trades_recorded_sampleRecording : ∃ s : Recording, s.exchange.history.settled.length = 1 ∧
    queryTrades "GME" s.writer.sent = some (s.exchange.history.settled.map TradeContainer.tradeRow) := by
  have hrun : (exec (step twoUsers "GME") (start twoUsers twoBalances 64 100 0) sampleRecording).any
      (fun s => decide (s.exchange.history.settled.length = 1 ∧ s.writer.location = .closed)) = true := by
      decide +kernel
  obtain ⟨s, hs, hp⟩ := (Option.any_eq_true _ _).1 hrun
  obtain ⟨hlen, hclosed⟩ := of_decide_eq_true hp
  obtain ⟨-, ⟨trades, -, hquery, hall⟩, -⟩ := trades_recorded (by decide) hs
  rw [hall hclosed] at hquery
  exact ⟨s, hlen, hquery⟩

/-! ### What the table of the orders does not show -/

/-- The statuses of a request. -/
def requestStatuses : List String := ["NEW", "REJECTED", "PENDING_CANCEL", "REJECTED_CANCEL"]

private theorem readOrder_request {task : WriteTask} (htask : task.IsManagers)
    (htable : (task.row A serverName).table = ordersTable serverName) {o : OrderRow}
    (ho : (task.row A serverName).readOrder = some o) : o.filledQty = 0 ∧ o.orderStatus ∈ requestStatuses := by
  obtain ⟨hfilled, hstatus⟩ := Row.readOrder_fields ho
  cases task with
  | orderInsertion id order valid =>
    have hzero : asInt 0 (((WriteTask.orderInsertion id order valid).row A serverName).cell "filled_qty") =
        some 0 := rfl
    have hcell : asText (((WriteTask.orderInsertion id order valid).row A serverName).cell "order_status") =
        some (if valid then "NEW" else "REJECTED") := rfl
    rw [hzero, Option.some.injEq] at hfilled
    rw [hcell, Option.some.injEq] at hstatus
    refine ⟨hfilled.symm, ?_⟩
    rw [← hstatus]
    cases valid <;> simp [requestStatuses]
  | cancelRequestInsertion c valid =>
    have hzero : asInt 0 (((WriteTask.cancelRequestInsertion c valid).row A serverName).cell "filled_qty") =
        some 0 := rfl
    have hcell : asText (((WriteTask.cancelRequestInsertion c valid).row A serverName).cell "order_status") =
        some (if valid then "PENDING_CANCEL" else "REJECTED_CANCEL") := rfl
    rw [hzero, Option.some.injEq] at hfilled
    rw [hcell, Option.some.injEq] at hstatus
    refine ⟨hfilled.symm, ?_⟩
    rw [← hstatus]
    cases valid <;> simp [requestStatuses]
  | executionInsertion r => cases htask
  | tradeInsertion t => exact absurd htable.symm (ordersTable_ne_tradesTable serverName serverName)
  | cancelResponseInsertion r => exact absurd htable (orders_ne_ordersTable serverName)

/-- The rows that were sent or are on their way are those of tasks of the order manager. -/
private theorem rows_isManagers {balances : BalanceChecker} {flushThreshold flushInterval now : Int}
    {es : List RecordingEvent}
    (h : exec (step cfg serverName) (start cfg balances flushThreshold flushInterval now) es = some s) :
    ∀ r ∈ s.rows serverName, ∃ task : WriteTask, task.IsManagers ∧ r = task.row .machine serverName := by
  refine exec_invariant
    (I := fun s => ∀ r ∈ s.rows serverName, ∃ task : WriteTask, task.IsManagers ∧ r = task.row .machine serverName)
    (p := fun _ => True) ?_ (fun r hr => absurd hr List.not_mem_nil) (fun _ _ => trivial) h
  intro s e s' hs _ hstep r hr
  cases e with
  | exchange e =>
    simp only [Recording.step, Option.bind_eq_some_iff, Option.map_eq_some_iff] at hstep
    obtain ⟨x, -, w, hw, rfl⟩ := hstep
    have hrows := AsyncWriter.exec_rows hw fun e he hd => by
      obtain ⟨task, -, rfl⟩ := List.mem_map.1 he
      exact hd
    rw [Recording.rows, hrows] at hr
    rcases List.mem_append.1 hr with hr | hr
    · exact hs r hr
    · obtain ⟨task, htask, rfl⟩ := List.mem_map.1 hr
      obtain ⟨e', he', htask⟩ := List.mem_flatMap.1 htask
      obtain ⟨task', htask', rfl⟩ := List.mem_map.1 he'
      obtain ⟨call, -, hcall⟩ := List.mem_filterMap.1 htask'
      obtain rfl := List.mem_singleton.1 htask
      exact ⟨task, DatabaseCall.task?_isManagers hcall, rfl⟩
  | writer e =>
    simp only [Recording.step, Option.ite_none_right_eq_some, Option.map_eq_some_iff] at hstep
    obtain ⟨hins, w, hw, rfl⟩ := hstep
    have hsub := (AsyncWriter.turn_of_step hw).rows_sublist.1
    rw [hins, List.map_nil, List.append_nil] at hsub
    exact hs r (hsub.subset hr)

/-- Whatever is thrown, and whichever of the rows that were sent the database returns: no order that `query_orders`
makes of them has a filled quantity or the status of a filled or cancelled order. -/
theorem orders_never_filled {balances : BalanceChecker} {flushThreshold flushInterval now : Int}
    {es : List RecordingEvent}
    (h : exec (step cfg serverName) (start cfg balances flushThreshold flushInterval now) es = some s)
    {rows : List Row} (hrows : rows ⊆ s.writer.sent) {orders : List OrderRow}
    (ho : queryOrders serverName rows = some orders) :
    ∀ o ∈ orders, o.filledQty = 0 ∧ o.orderStatus ∈ requestStatuses := by
  intro o hmem
  obtain ⟨r, hr, hread⟩ := mem_of_mapM ho hmem
  obtain ⟨hr, htable⟩ := List.mem_filter.1 hr
  have hsent : r ∈ s.rows serverName := List.mem_append_left _ (List.mem_append_left _ (hrows hr))
  obtain ⟨task, htask, rfl⟩ := rows_isManagers h r hsent
  exact readOrder_request htask (of_decide_eq_true htable) hread

theorem orders_never_filled_sampleRecording : ∃ (s : Recording) (orders : List OrderRow),
    s.exchange.history.settled.length = 1 ∧ queryOrders "GME" s.writer.sent = some orders ∧ orders.length = 2 ∧
    ∀ o ∈ orders, o.filledQty = 0 ∧ o.orderStatus ∈ requestStatuses := by
  have hrun : (exec (step twoUsers "GME") (start twoUsers twoBalances 64 100 0) sampleRecording).any
      (fun s => decide (s.exchange.history.settled.length = 1 ∧
        (queryOrders "GME" s.writer.sent).any fun os => decide (os.length = 2))) = true := by decide +kernel
  obtain ⟨s, hs, hp⟩ := (Option.any_eq_true _ _).1 hrun
  obtain ⟨hlen, ho⟩ := of_decide_eq_true hp
  obtain ⟨orders, horders, hlen'⟩ := (Option.any_eq_true _ _).1 ho
  exact ⟨s, orders, hlen, horders, of_decide_eq_true hlen', orders_never_filled hs (List.Subset.refl _) horders⟩

end Recording

end Elsa
