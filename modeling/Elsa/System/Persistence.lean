import Elsa.Base.Effects
import Elsa.Base.WriteThrough
import Elsa.System.Reports
import Elsa.System.Solvency

/-!
# Balances are written through

The exchange with the table of balances behind the order manager.  A new order changes a balance in memory only:
`update_database` inserts the order, but it does not write what the order reserves.  A trade changes up to three
balances in memory, a successful cancellation one, and `update_database` then writes the balances of the buyer and
the seller, or of the user whose order was cancelled, from the fields of the response anew.

`update_balance` is an SQL `UPDATE`: without a row for the user, the server and the symbol it succeeds and changes
nothing.  Where the rows exist, a balance in the table is the one in memory, but for the reservations since the
entry was last written (`balances_written_through`).
-/

namespace Elsa

open Base

/-- A user and a symbol. -/
abbrev BalanceEntry := String × String

/-! ### The table -/

/-- `balances`: user id, server id and symbol give a balance. -/
abbrev BalanceTable := Int → Int → String → Option Int

/-- What a call does to the table. -/
def DatabaseCall.apply (rows : BalanceTable) : DatabaseCall → BalanceTable
  | .updateBalance userId serverId symbol balance => fun u s k =>
    if u = userId ∧ s = serverId ∧ k = symbol then (rows u s k).map fun _ => balance else rows u s k
  | _ => rows

def BalanceTable.execute (rows : BalanceTable) (calls : List DatabaseCall) :
    BalanceTable := calls.foldl DatabaseCall.apply rows

/-- A row is there for the call to update. -/
def DatabaseCall.HasRow (rows : BalanceTable) : DatabaseCall → Prop
  | .updateBalance userId serverId symbol _ => rows userId serverId symbol ≠ none
  | _ => True

instance (rows : BalanceTable) : (call : DatabaseCall) → Decidable (call.HasRow rows)
  | .updateBalance _ _ _ _ => inferInstanceAs (Decidable (_ ≠ _))
  | .insertOrder .. | .insertCancelRequest .. | .insertTrade _ | .insertCancelResponse _ =>
    inferInstanceAs (Decidable True)

/-- The balance of a user in the table of the server. -/
def stored (cfg : Config) (rows : BalanceTable) (entry : BalanceEntry) : Option Int :=
  (cfg.usernameUserIdMap entry.1).bind fun userId => rows userId cfg.serverId entry.2

/-- The balance of a user in memory. -/
def OrderManager.balance (om : OrderManager) (entry : BalanceEntry) :
    Option Int := om.balanceChecker.entry entry.1 entry.2

/-! ### What is noted -/

/-- The entry that an order reserves from. -/
def NewOrderSingle.reservedEntry (o : NewOrderSingle) : BalanceEntry := (o.senderCompId, o.reservedTicker)

/-- The entries of the buyer and the seller. -/
def TradeContainer.entries (t : TradeContainer) : List BalanceEntry :=
  [(t.buyerId, usdSymbol), (t.buyerId, t.ticker), (t.sellerId, usdSymbol), (t.sellerId, t.ticker)]

/-- The entry that a cancelled order is refunded to. -/
def OrderInfo.refundedEntry (info : OrderInfo) : BalanceEntry :=
  (info.senderCompId, match info.side with | .bid => usdSymbol | .ask => info.symbol)

/-- The entries that a response is about. -/
def OrderManager.settledEntries (om : OrderManager) : Container → List BalanceEntry
  | .trade t => t.entries
  | .cancelOrderResponse r =>
    if r.success then ((om.orderInfoMap r.orderId).map OrderInfo.refundedEntry).toList else []
  | _ => []

section

variable (cfg : Config) (A : Arith)

/-- What the order manager sends in a step. -/
def Exchange.output (s : Exchange) : Event → Output
  | .request c gw ids =>
    match handleRequest cfg A true gw ids s.om c with
    | .ok (_, .done out) => out
    | _ => ⟨[], [], []⟩
  | .answer ids =>
    match s.waiting, s.answers with
    | some (o, gw), a :: _ =>
      match completeRequest cfg A gw ids s.om o a with
      | .ok (_, out) => out
      | .error _ => ⟨[], [], []⟩
    | _, _ => ⟨[], [], []⟩
  | .matching _ => ⟨[], [], []⟩
  | .response ids =>
    match s.responses with
    | c :: _ =>
      match handleResponse cfg A ids s.om c with
      | .ok (_, out) => out
      | .error _ => ⟨[], [], []⟩
    | [] => ⟨[], [], []⟩

/-- An order that is accepted, or a response that is processed. -/
def Exchange.notes (s : Exchange) (e : Event) : List (Note BalanceEntry) :=
  match e with
  | .response _ => (s.responses.head?.map fun c => Note.written (s.om.settledEntries c)).toList
  | _ => ((s.output cfg A e).forwarded.filterMap Container.newOrder?).map fun o => .changed o.reservedEntry

/-- An exchange, the table behind it and the notes so far. -/
structure Persisting where
  exchange : Exchange
  rows : BalanceTable
  log : List (Note BalanceEntry)

namespace Persisting

def start (balances : BalanceChecker) (rows : BalanceTable) : Persisting := ⟨.start cfg balances, rows, []⟩

def step (s : Persisting) (e : Event) : Option Persisting :=
  (s.exchange.step cfg A e).map fun x =>
    ⟨x, s.rows.execute (s.exchange.output cfg A e).database, s.log ++ s.exchange.notes cfg A e⟩

/-- Every balance that is written in the step has a row. -/
def RowsExist (s : Persisting) (e : Event) : Prop := ∀ call ∈ (s.exchange.output cfg A e).database, call.HasRow s.rows

instance (s : Persisting) (e : Event) : Decidable (s.RowsExist cfg A e) := inferInstanceAs (Decidable (∀ call ∈ _, _))

/-- The states of runs in which every balance that is written has a row. -/
abbrev Reachable (balances : BalanceChecker) (rows : BalanceTable) : Persisting → Prop :=
  Reach (step cfg A) (RowsExist cfg A) (start cfg balances rows)

end Persisting

end

variable {cfg : Config} {A : Arith}

/-! ### Calls and rows -/

theorem DatabaseCall.apply_updateBalance (rows : BalanceTable) (userId serverId : Int) (symbol : String)
    (balance u s : Int) (k : String) :
    (updateBalance userId serverId symbol balance).apply rows u s k =
      if u = userId ∧ s = serverId ∧ k = symbol then (rows u s k).map fun _ => balance else rows u s k :=
  rfl

/-- A call that leaves the balances alone. -/
def DatabaseCall.IsInsert : DatabaseCall → Prop
  | .updateBalance .. => False
  | _ => True

theorem DatabaseCall.IsInsert.apply_eq {call : DatabaseCall} (h : call.IsInsert) (rows : BalanceTable) :
    call.apply rows = rows := by
  cases call with
  | updateBalance => cases h
  | _ => rfl

theorem execute_inserts {calls : List DatabaseCall} (h : ∀ call ∈ calls, call.IsInsert) (rows : BalanceTable) :
    rows.execute calls = rows := by
  induction calls with
  | nil => rfl
  | cons call calls ih =>
    obtain ⟨hcall, hcalls⟩ := List.forall_mem_cons.1 h
    rw [BalanceTable.execute, List.foldl_cons, hcall.apply_eq]
    exact ih hcalls

/-- An update removes no row. -/
theorem DatabaseCall.HasRow.apply {call call' : DatabaseCall} {rows : BalanceTable} (h : call.HasRow rows) :
    call.HasRow (call'.apply rows) := by
  cases call with
  | updateBalance u s k balance =>
    cases call' with
    | updateBalance =>
      simp only [HasRow, apply_updateBalance]
      split
      · exact mt Option.map_eq_none_iff.1 h
      · exact h
    | _ => exact h
  | _ => trivial

/-- The call writes the balance that an entry has in memory, under the id of its user. -/
def Writes (cfg : Config) (bc : BalanceChecker) (entry : BalanceEntry) (call : DatabaseCall) : Prop :=
  ∃ userId x, cfg.usernameUserIdMap entry.1 = some userId ∧ bc.entry entry.1 entry.2 = some x ∧
    call = .updateBalance userId cfg.serverId entry.2 x

private theorem writes_of_persistBalance {bc : BalanceChecker} {u tk : String} {call : DatabaseCall}
    (h : persistBalance cfg bc u tk = .ok call) : Writes cfg bc (u, tk) call := by
  simp only [persistBalance, BalanceChecker.getBalance, bind_eq_ok, orFail_eq_ok, require_eq_ok] at h
  obtain ⟨userId, huser, x, ⟨-, -, y, hy, -, -, hxy⟩, h⟩ := h
  cases hxy
  cases h
  exact ⟨userId, x, huser, hy, rfl⟩

section

variable (hids : ∀ u v userId, cfg.usernameUserIdMap u = some userId → cfg.usernameUserIdMap v = some userId → u = v)

include hids

private theorem stored_apply {bc : BalanceChecker} {entry : BalanceEntry} {call : DatabaseCall} {rows : BalanceTable}
    (hw : Writes cfg bc entry call) (hrow : call.HasRow rows) (e : BalanceEntry) :
    stored cfg (call.apply rows) e = if e = entry then bc.entry e.1 e.2 else stored cfg rows e := by
  obtain ⟨userId, x, huser, hx, rfl⟩ := hw
  unfold stored
  by_cases he : e = entry
  · obtain ⟨balance, hbalance⟩ := Option.ne_none_iff_exists'.1 hrow
    rw [if_pos he, he, huser, Option.bind_some, DatabaseCall.apply_updateBalance, if_pos ⟨rfl, rfl, rfl⟩, hbalance,
      hx]
    rfl
  · rw [if_neg he]
    cases hu : cfg.usernameUserIdMap e.1 with
    | none => rfl
    | some userId' =>
      rw [Option.bind_some, Option.bind_some, DatabaseCall.apply_updateBalance, if_neg]
      rintro ⟨rfl, -, hsymbol⟩
      exact he (Prod.ext (hids _ _ _ hu huser) hsymbol)

/-- After the balances of some entries are written, the table has them. -/
theorem stored_execute {bc : BalanceChecker} {entries : List BalanceEntry} {calls : List DatabaseCall}
    (hw : List.Forall₂ (Writes cfg bc) entries calls) {rows : BalanceTable} (hrows : ∀ call ∈ calls, call.HasRow rows)
    (e : BalanceEntry) :
    stored cfg (rows.execute calls) e = if e ∈ entries then bc.entry e.1 e.2 else stored cfg rows e := by
  induction hw generalizing rows with
  | nil => rfl
  | cons hcall _ ih =>
    rename_i entry call entries calls _
    obtain ⟨hrow, hrest⟩ := List.forall_mem_cons.1 hrows
    rw [BalanceTable.execute, List.foldl_cons, ← BalanceTable.execute, ih fun c hc => (hrest c hc).apply,
      stored_apply hids hcall hrow, ← ite_or]
    exact if_congr (by rw [List.mem_cons, or_comm]) rfl rfl

end

/-! ### Responses -/

private theorem entry_refunded {bc : BalanceChecker} {limit : Option Int} {t : TradeContainer} {entry : BalanceEntry}
    (hentry : entry ≠ (t.buyerId, usdSymbol)) :
    (refunded A bc limit t).entry entry.1 entry.2 = bc.entry entry.1 entry.2 := by
  unfold refunded
  split
  · rfl
  · split
    · rw [BalanceChecker.entry_updated, if_neg fun h => hentry (Prod.ext h.1 h.2)]
    · rfl

/-- `update_internal_data` changes no other balances than those the response is about. -/
theorem updateInternalData_balance {om om' : OrderManager} {c : Container} (h : updateInternalData A om c = .ok om')
    {entry : BalanceEntry} (hentry : entry ∉ om.settledEntries c) : om'.balance entry = om.balance entry := by
  unfold OrderManager.balance
  cases c with
  | trade t =>
    simp only [updateInternalData, bind_eq_ok] at h
    obtain ⟨-, -, infos, -, infos', -, bc₁, hshares, buyer, -, bc₂, hrefund, bc₃, hmoney, h⟩ := h
    cases h
    obtain ⟨-, -, rfl⟩ := BalanceChecker.updateBalance_eq_ok_iff.1 hshares
    obtain rfl := refundImprovement_ok hrefund
    obtain ⟨-, -, rfl⟩ := BalanceChecker.updateBalance_eq_ok_iff.1 hmoney
    simp only [OrderManager.settledEntries, TradeContainer.entries, List.mem_cons, not_or] at hentry
    obtain ⟨hbuyerUsd, hbuyerTicker, hsellerUsd, -⟩ := hentry
    rw [BalanceChecker.entry_updated, if_neg fun h => hsellerUsd (Prod.ext h.1 h.2), entry_refunded hbuyerUsd,
      BalanceChecker.entry_updated, if_neg fun h => hbuyerTicker (Prod.ext h.1 h.2)]
  | cancelOrderResponse r =>
    obtain ⟨id, clOrdId, success⟩ := r
    cases success with
    | false =>
      cases h
      rfl
    | true =>
      obtain ⟨info, price, bc, hinfo, -, hbc, rfl⟩ := updateInternalData_cancel.1 h
      obtain ⟨-, -, rfl⟩ := BalanceChecker.updateBalance_eq_ok_iff.1 hbc
      have hrefunded : info.refundedEntry = (info.senderCompId, (info.released A price).1) := by
        unfold OrderInfo.refundedEntry OrderInfo.released
        cases info.side <;> rfl
      simp only [OrderManager.settledEntries, if_true, hinfo, Option.map_some, Option.toList_some,
        List.mem_singleton, hrefunded] at hentry
      rw [BalanceChecker.entry_updated, if_neg fun h => hentry (Prod.ext h.1 h.2)]
  | _ => cases h

/-- `update_database` finds the same entries as `update_internal_data`. -/
private theorem updateInternalData_settledEntries {om om' : OrderManager} {c : Container}
    (h : updateInternalData A om c = .ok om') : om'.settledEntries c = om.settledEntries c := by
  cases c with
  | trade t => rfl
  | cancelOrderResponse r =>
    obtain ⟨id, clOrdId, success⟩ := r
    cases success with
    | false => rfl
    | true =>
      obtain ⟨info, price, bc, -, -, -, rfl⟩ := updateInternalData_cancel.1 h
      rfl
  | _ => cases h

/-- `update_database` writes all balances that a response is about, as they are then. -/
theorem updateDatabase_writes {om om' : OrderManager} {c : Container} {calls : List DatabaseCall}
    (hdata : updateInternalData A om c = .ok om') (h : updateDatabase cfg om' none c = .ok calls) :
    ∃ insert updates, calls = insert :: updates ∧ insert.IsInsert ∧
      List.Forall₂ (Writes cfg om'.balanceChecker) (om.settledEntries c) updates := by
  rw [← updateInternalData_settledEntries hdata]
  cases c with
  | trade t =>
    simp only [updateDatabase, bind_eq_ok] at h
    obtain ⟨buyerUsd, h₁, buyerSymbol, h₂, sellerUsd, h₃, sellerSymbol, h₄, h⟩ := h
    cases h
    exact ⟨_, _, rfl, trivial, .cons (writes_of_persistBalance h₁) (.cons (writes_of_persistBalance h₂)
      (.cons (writes_of_persistBalance h₃) (.cons (writes_of_persistBalance h₄) .nil)))⟩
  | cancelOrderResponse r =>
    obtain ⟨id, clOrdId, success⟩ := r
    cases success with
    | false =>
      cases h
      exact ⟨_, _, rfl, trivial, .nil⟩
    | true =>
      simp only [updateDatabase, if_true, bind_eq_ok, orFail_eq_ok, require_eq_ok] at h
      obtain ⟨info, hinfo, -, -, update, hupdate, h⟩ := h
      cases h
      refine ⟨_, _, rfl, trivial, ?_⟩
      simp only [OrderManager.settledEntries, if_true, hinfo, Option.map_some, Option.toList_some]
      exact .cons (writes_of_persistBalance hupdate) .nil
  | _ => cases hdata

/-! ### What a step does -/

theorem Validated.balance {bc bc' : BalanceChecker} {cost : Option Int} {o : NewOrderSingle}
    (hv : Validated cfg A bc cost o bc') {entry : BalanceEntry} (hentry : entry ≠ o.reservedEntry) :
    bc'.entry entry.1 entry.2 = bc.entry entry.1 entry.2 := by
  obtain ⟨ticker, delta, x, hr, -, -, -, -, rfl⟩ := hv.reserved
  rw [BalanceChecker.entry_updated, if_neg]
  rintro ⟨huser, hticker⟩
  exact hentry (Prod.ext huser (hticker.trans hr.ticker_eq.symm))

/-- The balances, the calls and the notes of a step. -/
inductive Exchange.Persists (cfg : Config) (A : Arith) (s s' : Exchange) :
    List DatabaseCall → List (Note BalanceEntry) → Prop
  /-- No balance changes. -/
  | kept (calls) (hbalances : s'.om.balanceChecker = s.om.balanceChecker) (hcalls : ∀ call ∈ calls, call.IsInsert) :
      Persists cfg A s s' calls []
  /-- A new order is accepted. -/
  | reserved (o cost calls) (hv : Validated cfg A s.om.balanceChecker cost o s'.om.balanceChecker)
    (hcalls : ∀ call ∈ calls, call.IsInsert) : Persists cfg A s s' calls [.changed o.reservedEntry]
  /-- A response is processed. -/
  | settled (c calls) (hdata : updateInternalData A s.om c = .ok s'.om)
    (hdatabase : updateDatabase cfg s'.om none c = .ok calls) : Persists cfg A s s' calls
    [.written (s.om.settledEntries c)]

/-- A request, as `preprocess_container` takes it. -/
def Container.IsRequest : Container → Prop
  | .newOrderSingle _ => True
  | .cancelOrderRequest _ => True
  | _ => False

private theorem updateDatabase_inserts {om : OrderManager} {valid : Bool} {c : Container} {calls : List DatabaseCall}
    (hc : c.IsRequest) (h : updateDatabase cfg om (some valid) c = .ok calls) : ∀ call ∈ calls, call.IsInsert := by
  cases c with
  | newOrderSingle o =>
    simp only [updateDatabase, bind_eq_ok] at h
    obtain ⟨-, -, id, -, v, -, h⟩ := h
    cases h
    exact List.forall_mem_singleton.2 trivial
  | cancelOrderRequest r =>
    simp only [updateDatabase, bind_eq_ok] at h
    obtain ⟨-, -, v, -, h⟩ := h
    cases h
    exact List.forall_mem_singleton.2 trivial
  | _ => cases hc

/-- A request inserts rows and writes no balance. -/
theorem finishRequest_inserts {gw : Int} {ids : Nat → String} {om om' : OrderManager} {c : Container}
    {r : Except String (Option Int)} {out : Output} (hc : c.IsRequest)
    (h : finishRequest cfg A gw ids om c r = .ok (om', out)) : ∀ call ∈ out.database, call.IsInsert := by
  cases r with
  | ok cost =>
    simp only [finishRequest, bind_eq_ok] at h
    obtain ⟨verdict, -, out₁, -, database, hdatabase, h⟩ := h
    cases h
    exact updateDatabase_inserts hc hdatabase
  | error err =>
    simp only [finishRequest, bind_eq_ok] at h
    obtain ⟨out₁, -, database, hdatabase, h⟩ := h
    cases h
    exact updateDatabase_inserts hc hdatabase

private theorem preprocessContainer_isRequest {sent : Bool} {gw : Int} {om om' : OrderManager} {c c' : Container}
    {r : Preprocessed} (h : preprocessContainer cfg A sent gw om c = .ok (om', c', r)) : c'.IsRequest := by
  cases c with
  | newOrderSingle o =>
    cases h
    trivial
  | cancelOrderRequest o =>
    cases h
    trivial
  | _ => cases h

/-- A request that is handled to its end is one that was preprocessed and then finished. -/
theorem finishRequest_of_handleRequest {sent : Bool} {gw : Int} {ids : Nat → String} {om om' : OrderManager}
    {c : Container} {out : Output} (h : handleRequest cfg A sent gw ids om c = .ok (om', .done out)) :
    ∃ om₁ c₁ r, c₁.IsRequest ∧ finishRequest cfg A gw ids om₁ c₁ r = .ok (om', out) := by
  rw [handleRequest, bind_eq_ok] at h
  obtain ⟨⟨om₁, c₁, r⟩, hpre, h⟩ := h
  have hc := preprocessContainer_isRequest hpre
  cases r with
  | value r =>
    obtain ⟨⟨om₂, out₂⟩, hfinish, h⟩ := bind_eq_ok.1 h
    cases h
    exact ⟨om₁, c₁, r, hc, hfinish⟩
  | query q =>
    cases c₁ with
    | newOrderSingle o => cases h
    | _ => cases h

theorem handleRequest_inserts {sent : Bool} {gw : Int} {ids : Nat → String} {om om' : OrderManager} {c : Container}
    {out : Output} (h : handleRequest cfg A sent gw ids om c = .ok (om', .done out)) :
    ∀ call ∈ out.database, call.IsInsert := by
  obtain ⟨om₁, c₁, r, hc, hfinish⟩ := finishRequest_of_handleRequest h
  exact finishRequest_inserts hc hfinish

theorem completeRequest_inserts {gw : Int} {ids : Nat → String} {om om' : OrderManager} {o : NewOrderSingle}
    {answer : Container} {out : Output} (h : completeRequest cfg A gw ids om o answer = .ok (om', out)) :
    ∀ call ∈ out.database, call.IsInsert := by
  obtain ⟨cost, -, hfinish⟩ := bind_eq_ok.1 h
  exact finishRequest_inserts (c := .newOrderSingle o) trivial hfinish

/-- A request forwards no new order and changes no balance, or it forwards one and takes its reservation. -/
def Reserves (cfg : Config) (A : Arith) (bc bc' : BalanceChecker) (orders : List NewOrderSingle) : Prop :=
  (bc' = bc ∧ orders = []) ∨ ∃ o cost, Validated cfg A bc cost o bc' ∧ orders = [o]

private theorem handleRequest_reserves {sent : Bool} {gw : Int} {ids : Nat → String} {om om' : OrderManager}
    {c : Container} {out : Output} (h : handleRequest cfg A sent gw ids om c = .ok (om', .done out)) :
    Reserves cfg A om.balanceChecker om'.balanceChecker (out.forwarded.filterMap Container.newOrder?) := by
  cases c with
  | newOrderSingle o =>
    rcases handleRequest_newOrder h with ⟨-, rfl, out', hout, hforwarded⟩ | ⟨userId, -, -, hrest⟩
    · cases hout
      exact .inl ⟨rfl, by rw [hforwarded]; rfl⟩
    rcases hrest with ⟨rfl, out', hout, hforwarded⟩ | ⟨-, bc, out', hv, rfl, hout, hforwarded⟩ | ⟨-, -, -, -, hout⟩
    · cases hout
      exact .inl ⟨rfl, by rw [hforwarded]; rfl⟩
    · cases hout
      exact .inr ⟨_, none, hv, by rw [hforwarded]; rfl⟩
    · cases hout
  | cancelOrderRequest r =>
    obtain ⟨rfl, out', hout, hforwarded⟩ := handleRequest_cancel h
    cases hout
    rcases hforwarded with hforwarded | ⟨id, -, -, hforwarded⟩
    · exact .inl ⟨rfl, by rw [hforwarded]; rfl⟩
    · exact .inl ⟨rfl, by rw [hforwarded]; rfl⟩
  | _ => cases h

/-- While a market bid waits its cost is not reserved. -/
private theorem handleRequest_waiting {sent : Bool} {gw : Int} {ids : Nat → String} {om om' : OrderManager}
    {c : Container} {o : NewOrderSingle} {q : FillCostQuery}
    (h : handleRequest cfg A sent gw ids om c = .ok (om', .waiting o q)) :
    om'.balanceChecker = om.balanceChecker := by
  cases c with
  | newOrderSingle o =>
    rcases handleRequest_newOrder h with ⟨-, rfl, out', hout, -⟩ | ⟨userId, -, -, hrest⟩
    · cases hout
    rcases hrest with ⟨rfl, out', hout, -⟩ | ⟨-, bc, out', -, -, hout, -⟩ | ⟨-, -, -, rfl, -⟩
    · cases hout
    · cases hout
    · rfl
  | cancelOrderRequest r =>
    obtain ⟨-, out', hout, -⟩ := handleRequest_cancel h
    cases hout
  | _ => cases h

private theorem completeRequest_reserves {gw : Int} {ids : Nat → String} {om om' : OrderManager} {o : NewOrderSingle}
    {answer : Container} {out : Output} (h : completeRequest cfg A gw ids om o answer = .ok (om', out)) :
    Reserves cfg A om.balanceChecker om'.balanceChecker (out.forwarded.filterMap Container.newOrder?) := by
  obtain ⟨cost, -, ⟨rfl, hforwarded⟩ | ⟨bc, hv, rfl, hforwarded⟩⟩ := completeRequest_ok h
  · exact .inl ⟨rfl, by rw [hforwarded]; rfl⟩
  · exact .inr ⟨o, cost, hv, by rw [hforwarded]; rfl⟩

namespace Exchange

variable {s s' : Exchange}

private theorem Persists.of_reserves {calls : List DatabaseCall} {orders : List NewOrderSingle}
    (h : Reserves cfg A s.om.balanceChecker s'.om.balanceChecker orders) (hcalls : ∀ call ∈ calls, call.IsInsert) :
    Persists cfg A s s' calls (orders.map fun o => .changed o.reservedEntry) := by
  rcases h with ⟨hsame, rfl⟩ | ⟨o, cost, hv, rfl⟩
  · exact .kept calls hsame hcalls
  · exact .reserved o cost calls hv hcalls

private theorem persists_of_step {e : Event} (h : s.step cfg A e = some s') :
    Persists cfg A s s' (s.output cfg A e).database (s.notes cfg A e) := by
  cases step_iff.1 h with
  | request c gw ids om out hw hr =>
    simp only [notes, output, hr]
    exact .of_reserves (handleRequest_reserves hr) (handleRequest_inserts hr)
  | query c gw ids om o q hw hr =>
    simp only [notes, output, hr]
    exact .kept _ (handleRequest_waiting hr) (List.forall_mem_nil _)
  | answer o gw a answers ids om out hw ha hr =>
    simp only [notes, output, hw, ha, hr]
    exact .of_reserves (completeRequest_reserves hr) (completeRequest_inserts hr)
  | matching => exact .kept _ rfl (List.forall_mem_nil _)
  | response c responses ids om out hw hc hr =>
    obtain ⟨hdata, reports, database, -, hdatabase, rfl⟩ := handleResponse_eq_ok_iff.1 hr
    simp only [notes, output, hc, hr, List.head?_cons, Option.map_some, Option.toList_some]
    exact .settled c database hdata hdatabase

end Exchange

/-! ### Runs -/

private theorem Persisting.Reachable.inSync
    (hids : ∀ u v userId, cfg.usernameUserIdMap u = some userId → cfg.usernameUserIdMap v = some userId → u = v)
    {balances : BalanceChecker} {rows : BalanceTable}
    (hstart : ∀ u symbol, stored cfg rows (u, symbol) = balances.entry u symbol) {s : Persisting}
    (h : Persisting.Reachable cfg A balances rows s) : InSync s.exchange.om.balance (stored cfg s.rows) s.log := by
  refine Reach.invariant (I := fun s => InSync s.exchange.om.balance (stored cfg s.rows) s.log) h
    (.start (funext fun entry : BalanceEntry => hstart entry.1 entry.2)) ?_
  rintro s e s' ih hrows hstep
  obtain ⟨x, hx, rfl⟩ := Option.map_eq_some_iff.1 hstep
  have hp := Exchange.persists_of_step hx
  unfold RowsExist at hrows
  dsimp only
  generalize (s.exchange.output cfg A e).database = calls at hp hrows ⊢
  generalize s.exchange.notes cfg A e = notes at hp ⊢
  cases hp with
  | kept calls hbalances hcalls =>
    have hsame : x.om.balance = s.exchange.om.balance := by
      unfold OrderManager.balance
      rw [hbalances]
    rw [execute_inserts hcalls, List.append_nil, hsame]
    exact ih
  | reserved o cost calls hv hcalls =>
    rw [execute_inserts hcalls]
    exact ih.changed fun entry hentry => hv.balance hentry
  | settled c calls hdata hdatabase =>
    obtain ⟨insert, updates, rfl, hinsert, hwrites⟩ := updateDatabase_writes hdata hdatabase
    have hstored : ∀ entry, stored cfg (s.rows.execute (insert :: updates)) entry =
        if entry ∈ s.exchange.om.settledEntries c then x.om.balance entry else stored cfg s.rows entry :=
          fun entry => by
      rw [BalanceTable.execute, List.foldl_cons, hinsert.apply_eq, ← BalanceTable.execute]
      exact stored_execute hids hwrites (List.forall_mem_cons.1 hrows).2 entry
    refine ih.written (fun entry hentry => updateInternalData_balance hdata hentry) (fun entry hentry => ?_)
      fun entry hentry => ?_
    · rw [hstored, if_neg hentry]
    · rw [hstored, if_pos hentry]

/-- A balance that a response changes is written, with its new value and under the id of its user. -/
private theorem handleResponse_writes {ids : Nat → String} {om om' : OrderManager} {c : Container} {out : Output}
    (h : handleResponse cfg A ids om c = .ok (om', out)) {entry : BalanceEntry}
    (hchanged : om'.balance entry ≠ om.balance entry) :
    ∃ call ∈ out.database, Writes cfg om'.balanceChecker entry call := by
  obtain ⟨hdata, reports, database, -, hdatabase, rfl⟩ := handleResponse_eq_ok_iff.1 h
  obtain ⟨insert, updates, rfl, -, hwrites⟩ := updateDatabase_writes hdata hdatabase
  have hentry : entry ∈ om.settledEntries c := by
    by_contra hnot
    exact hchanged (updateInternalData_balance hdata hnot)
  have hflip : List.Forall₂ (flip (Writes cfg om'.balanceChecker)) updates (om.settledEntries c) := .flip hwrites
  obtain ⟨call, hcall, hw⟩ := exists_of_forall₂ hflip hentry
  exact ⟨call, List.mem_cons_of_mem _ hcall, hw⟩

/-- Where every balance that is written has a row, a balance in the table is the one in memory, unless an order that
reserves from it was accepted since the last trade or cancellation that is about it.  What a response changes is
written with its new value, under the id of its user. -/
theorem balances_written_through (cfg : Config) (A : Arith)
    (hids : ∀ u v userId, cfg.usernameUserIdMap u = some userId → cfg.usernameUserIdMap v = some userId → u = v)
    (balances : BalanceChecker) (rows : BalanceTable)
    (hstart : ∀ u symbol, stored cfg rows (u, symbol) = balances.entry u symbol) :
    (∀ s, Persisting.Reachable cfg A balances rows s → ∀ u symbol, stale s.log (u, symbol) = false →
      stored cfg s.rows (u, symbol) = s.exchange.om.balanceChecker.entry u symbol) ∧
    ∀ ids om om' c out, handleResponse cfg A ids om c = .ok (om', out) → ∀ u symbol,
      om'.balanceChecker.entry u symbol ≠ om.balanceChecker.entry u symbol →
      ∃ userId balance, cfg.usernameUserIdMap u = some userId ∧ om'.balanceChecker.entry u symbol = some balance ∧
        .updateBalance userId cfg.serverId symbol balance ∈ out.database := by
  refine ⟨fun s h u symbol => h.inSync hids hstart (u, symbol), fun ids om om' c out h u symbol hchanged => ?_⟩
  obtain ⟨call, hcall, userId, balance, huser, hbalance, rfl⟩ :=
    handleResponse_writes h (show om'.balance (u, symbol) ≠ om.balance (u, symbol) from hchanged)
  exact ⟨userId, balance, huser, hbalance, hcall⟩

/-- Both users have an entry for each symbol. -/
def fullBalances : BalanceChecker := fun u =>
  if u = "ann" then some fun tk => if tk = "USD" then some 100000 else if tk = "GME" then some 0 else none
  else if u = "bob" then some fun tk => if tk = "USD" then some 100000 else if tk = "GME" then some 50 else none
  else none

/-- The rows of these entries. -/
def fullRows : BalanceTable := fun userId serverId symbol =>
  if serverId ≠ 1 then none
  else if userId = 1 then fullBalances.entry "ann" symbol
  else if userId = 2 then fullBalances.entry "bob" symbol
  else none

private theorem stored_fullRows (u symbol : String) :
    stored twoUsers fullRows (u, symbol) = fullBalances.entry u symbol := by
  by_cases hann : u = "ann"
  · subst hann
    rfl
  · by_cases hbob : u = "bob"
    · subst hbob
      rfl
    · simp [stored, twoUsers, BalanceChecker.entry, fullBalances, hann, hbob]

/-- `ann` buys four shares from `bob`: what the order of `bob` has reserved is in the table once the trade is
processed. -/
theorem balances_written_through_sample : ∃ s, Persisting.Reachable twoUsers .exact fullBalances fullRows s ∧
    stale s.log ("bob", "GME") = false ∧ stored twoUsers s.rows ("bob", "GME") = some 40 := by
  have hrun : (execIf (Persisting.step twoUsers .exact) (Persisting.RowsExist twoUsers .exact)
      (Persisting.start twoUsers fullBalances fullRows) (Exchange.sampleTrading ++ [.response Exchange.noIds])).any
      (fun s => !stale s.log ("bob", "GME") &&
        decide (s.exchange.om.balanceChecker.entry "bob" "GME" = some 40)) = true := by
    decide +kernel
  obtain ⟨s, hreach, h⟩ := Reach.exists_of_execIf hrun
  rw [Bool.and_eq_true, Bool.not_eq_true', decide_eq_true_eq] at h
  refine ⟨s, hreach, h.1, ?_⟩
  rw [(balances_written_through twoUsers .exact twoUsers_injective fullBalances fullRows stored_fullRows).1 s hreach
    "bob" "GME" h.1, h.2]

end Elsa
