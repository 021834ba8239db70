import Mathlib.Algebra.Order.BigOperators.Group.Finset
import Elsa.Manager.Startup
import Elsa.System.Assets
import Elsa.System.Persistence

/-!
# Restarting the order manager

The exchange with the tables behind the order manager, from the start on: the balances come from the tables, trades
and cancellations are written back, and what new orders reserve is not.  Each balance is written by a call of its
own.  An order manager that is started again from the tables, when all calls were made and none has failed, finds
the same users, and for each of them at least what they could spend before and at most what they had together with
what their orders held back (`restart_between`).  So a restart gives back reservations, but it creates no asset
(`restart_total_le`).  An order manager that stops amid the calls of a trade may leave the shares with both users.

In the tables each user has a row for dollars and for each symbol, as `handle_create_server` makes them.
-/

namespace Elsa

open Base Backend LimitOrderBook

/-! ### The tables -/

/-- What an `UPDATE` of a balance does to a row. -/
def Backend.BalanceRow.write (userId serverId : Int) (symbol : String) (balance : Int) (r : BalanceRow) :
    BalanceRow :=
  if r.userId = userId ∧ r.serverId = serverId ∧ r.symbol = symbol then { r with balance } else r

private theorem Backend.BalanceRow.key_write (userId serverId : Int) (symbol : String) (balance : Int)
    (r : BalanceRow) : (r.write userId serverId symbol balance).key = r.key := by
  unfold write
  split <;> rfl

namespace Backend.Store

private theorem map_key_write (st : Store) (userId serverId : Int) (symbol : String) (balance : Int) :
    (st.balances.map (BalanceRow.write userId serverId symbol balance)).map BalanceRow.key =
      st.balances.map BalanceRow.key := by
  rw [List.map_map]
  exact List.map_congr_left fun r _ => r.key_write userId serverId symbol balance

/-- `update_balance`. -/
def updateBalance (st : Store) (userId serverId : Int) (symbol : String) (balance : Int) : Store :=
  { st with
    balances := st.balances.map (BalanceRow.write userId serverId symbol balance)
    balance_key := by
      rw [map_key_write]
      exact st.balance_key
    balance_server := fun r hr => by
      obtain ⟨row, hrow, rfl⟩ := List.mem_map.1 hr
      have hkey : (row.write userId serverId symbol balance).serverId = row.serverId :=
        congrArg (fun k => k.2.2) (row.key_write userId serverId symbol balance)
      exact hkey ▸ st.balance_server row hrow
    balance_user := fun r hr => by
      obtain ⟨row, hrow, rfl⟩ := List.mem_map.1 hr
      have hkey : (row.write userId serverId symbol balance).userId = row.userId :=
        congrArg Prod.fst (row.key_write userId serverId symbol balance)
      exact hkey ▸ st.balance_user row hrow }

/-- What a call does to the tables; orders, cancellations and trades are in another database. -/
def apply (st : Store) : DatabaseCall → Store
  | .updateBalance userId serverId symbol balance => st.updateBalance userId serverId symbol balance
  | _ => st

def execute (st : Store) (calls : List DatabaseCall) : Store := calls.foldl apply st

/-- The balances of the tables. -/
def balanceTable (st : Store) : BalanceTable := fun userId serverId symbol =>
  (st.balances.find? fun r => r.key = (userId, symbol, serverId)).map BalanceRow.balance

private theorem balanceTable_eq_some {st : Store} {userId serverId : Int} {symbol : String} {b : Int} :
    st.balanceTable userId serverId symbol = some b ↔ ⟨userId, serverId, symbol, b⟩ ∈ st.balances := by
  unfold balanceTable
  rw [Option.map_eq_some_iff]
  constructor
  · rintro ⟨r, hr, rfl⟩
    have hkey : r.key = (userId, symbol, serverId) := by simpa using List.find?_some hr
    cases r
    cases hkey
    exact List.mem_of_find?_eq_some hr
  · intro h
    exact ⟨_, find?_of_nodup_map st.balance_key h rfl, rfl⟩

private theorem balanceTable_apply (st : Store) (call : DatabaseCall) :
    (st.apply call).balanceTable = call.apply st.balanceTable := by
  cases call with
  | updateBalance userId serverId symbol balance =>
    funext u s k
    refine Option.ext fun b => ?_
    rw [balanceTable_eq_some, DatabaseCall.apply_updateBalance]
    simp only [apply, updateBalance, List.mem_map]
    split
    · rename_i hkey
      obtain ⟨rfl, rfl, rfl⟩ := hkey
      rw [Option.map_eq_some_iff]
      constructor
      · rintro ⟨r, hr, heq⟩
        have hrow : r.key = (u, k, s) := (r.key_write u s k balance).symm.trans (congrArg BalanceRow.key heq)
        cases r
        cases hrow
        rw [BalanceRow.write, if_pos ⟨rfl, rfl, rfl⟩] at heq
        cases heq
        exact ⟨_, balanceTable_eq_some.2 hr, rfl⟩
      · rintro ⟨b₀, hb₀, rfl⟩
        refine ⟨_, balanceTable_eq_some.1 hb₀, ?_⟩
        rw [BalanceRow.write, if_pos ⟨rfl, rfl, rfl⟩]
    · rename_i hkey
      rw [balanceTable_eq_some]
      constructor
      · rintro ⟨r, hr, heq⟩
        have hrow : r.key = (u, k, s) :=
          (r.key_write userId serverId symbol balance).symm.trans (congrArg BalanceRow.key heq)
        cases r
        cases hrow
        rw [BalanceRow.write, if_neg hkey] at heq
        exact heq ▸ hr
      · intro hrow
        exact ⟨_, hrow, if_neg hkey⟩
  | _ => rfl

private theorem balanceTable_execute (st : Store) (calls : List DatabaseCall) :
    (st.execute calls).balanceTable = st.balanceTable.execute calls := by
  induction calls generalizing st with
  | nil => rfl
  | cons call calls ih =>
    rw [execute, List.foldl_cons, BalanceTable.execute, List.foldl_cons, ← balanceTable_apply]
    exact ih (st.apply call)

/-- Only balances differ. -/
structure SameKeys (st st' : Store) : Prop where
  db : st'.db = st.db
  columns : st'.columns = st.columns
  users : st'.users = st.users
  allowlist : st'.allowlist = st.allowlist
  keys : st'.balances.map BalanceRow.key = st.balances.map BalanceRow.key

theorem SameKeys.refl (st : Store) : SameKeys st st := ⟨rfl, rfl, rfl, rfl, rfl⟩

theorem SameKeys.trans {st st' st'' : Store} (h : SameKeys st st') (h' : SameKeys st' st'') : SameKeys st st'' :=
  ⟨h'.db.trans h.db, h'.columns.trans h.columns, h'.users.trans h.users, h'.allowlist.trans h.allowlist,
    h'.keys.trans h.keys⟩

private theorem sameKeys_execute (st : Store) (calls : List DatabaseCall) : SameKeys st (st.execute calls) := by
  induction calls generalizing st with
  | nil => exact .refl st
  | cons call calls ih =>
    refine SameKeys.trans ?_ (ih (st.apply call))
    cases call with
    | updateBalance userId serverId symbol balance =>
      exact ⟨rfl, rfl, rfl, rfl, st.map_key_write userId serverId symbol balance⟩
    | _ => exact .refl st

theorem SameKeys.mem_iff {st st' : Store} (h : SameKeys st st') (userId serverId : Int) (symbol : String) :
    (∃ b, ⟨userId, serverId, symbol, b⟩ ∈ st'.balances) ↔ ∃ b, ⟨userId, serverId, symbol, b⟩ ∈ st.balances := by
  have hkey : ∀ st : Store, (∃ b, ⟨userId, serverId, symbol, b⟩ ∈ st.balances) ↔
      (userId, symbol, serverId) ∈ st.balances.map BalanceRow.key := by
    intro st
    constructor
    · rintro ⟨b, hb⟩
      exact List.mem_map.2 ⟨_, hb, rfl⟩
    · intro hmem
      obtain ⟨r, hr, heq⟩ := List.mem_map.1 hmem
      cases r
      cases heq
      exact ⟨_, hr⟩
  rw [hkey, hkey, h.keys]

end Backend.Store

/-! ### What the order manager starts with -/

section start

variable {st st' : Store} {serverId adminId : Int} {cfg cfg' : Config} {balances balances' : BalanceChecker}

theorem StartsWith.injective (h : StartsWith st serverId adminId cfg balances) (u v : String) (userId : Int)
    (hu : cfg.usernameUserIdMap u = some userId) (hv : cfg.usernameUserIdMap v = some userId) : u = v := by
  obtain ⟨_, _, hloaded⟩ := (h.user u userId).1 hu
  obtain ⟨_, _, hloaded'⟩ := (h.user v userId).1 hv
  exact st.hasId_biUnique.1 hloaded.user hloaded'.user

/-- The balances are those of the table. -/
theorem StartsWith.stored (h : StartsWith st serverId adminId cfg balances) (u symbol : String) :
    stored cfg st.balanceTable (u, symbol) = balances.entry u symbol := by
  refine Option.ext fun b => ?_
  rw [h.entry]
  unfold Elsa.stored
  rw [Option.bind_eq_some_iff]
  constructor
  · rintro ⟨userId, huser, hrow⟩
    obtain ⟨_, _, hloaded⟩ := (h.user u userId).1 huser
    rw [Store.balanceTable_eq_some, h.server] at hrow
    exact ⟨userId, hloaded.user, hloaded.member, hrow⟩
  · rintro ⟨userId, hloaded⟩
    refine ⟨userId, (h.user u userId).2 ⟨symbol, b, hloaded⟩, ?_⟩
    rw [Store.balanceTable_eq_some, h.server]
    exact hloaded.row

private theorem isLoaded_congr (h : st.SameKeys st') (userId : Int) (u symbol : String) :
    (∃ b, IsLoaded st' serverId adminId userId u symbol b) ↔ ∃ b, IsLoaded st serverId adminId userId u symbol b := by
  have hiff : ∀ st : Store, (∃ b, IsLoaded st serverId adminId userId u symbol b) ↔ st.HasId u userId ∧
      (⟨serverId, userId⟩ ∈ st.allowlist ∨ userId = adminId) ∧ ∃ b, ⟨userId, serverId, symbol, b⟩ ∈ st.balances := by
    intro st
    constructor
    · rintro ⟨b, hb⟩
      exact ⟨hb.user, hb.member, b, hb.row⟩
    · rintro ⟨huser, hmember, b, hrow⟩
      exact ⟨b, huser, hmember, hrow⟩
  rw [hiff, hiff, h.mem_iff, Store.HasId, Store.HasId, h.users, h.allowlist]

/-- With other balances in the tables the order manager knows the same users. -/
private theorem StartsWith.users_congr (h : StartsWith st serverId adminId cfg balances)
    (h' : StartsWith st' serverId adminId cfg' balances') (hsame : st.SameKeys st') :
    cfg'.usernameUserIdMap = cfg.usernameUserIdMap := by
  funext u
  refine Option.ext fun userId => ?_
  rw [h.user, h'.user]
  exact exists_congr fun symbol => isLoaded_congr hsame userId u symbol

end start

/-! ### Steps -/

namespace Exchange

variable {cfg : Config} {A : Arith} {s s' : Exchange} {u tk : String}

/-- A step that is not about a response writes no balance and settles no trade. -/
private theorem inserts_of_step {e : Event} (h : s.step cfg A e = some s') (he : ∀ ids, e ≠ .response ids) :
    (∀ call ∈ (s.output cfg A e).database, call.IsInsert) ∧ s'.history.settled = s.history.settled := by
  cases step_iff.1 h with
  | request c gw ids om out hw hr =>
    refine ⟨?_, rfl⟩
    simp only [output, hr]
    exact handleRequest_inserts hr
  | query c gw ids om o q hw hr =>
    refine ⟨?_, rfl⟩
    simp only [output, hr]
    exact List.forall_mem_nil _
  | answer o gw a answers ids om out hw ha hr =>
    refine ⟨?_, rfl⟩
    simp only [output, hw, ha, hr]
    exact completeRequest_inserts hr
  | matching => exact ⟨List.forall_mem_nil _, rfl⟩
  | response c responses ids => exact absurd rfl (he ids)

/-- What is reserved is taken from the balance. -/
private theorem balance_le_of_validated {bc bc' : BalanceChecker} {cost : Option Int} {o : NewOrderSingle}
    (hv : Validated cfg .exact bc cost o bc') (hcost : o.IsMarketBid → ∀ c, cost = some c → 0 ≤ c) :
    bc'.balance u tk ≤ bc.balance u tk := by
  obtain ⟨ticker, delta, x, hres, -, -, -, -, rfl⟩ := hv.reserved
  have hdelta : delta ≤ 0 := by
    cases hres with
    | limitBid price hside htype hprice =>
      rw [Arith.exact_int64, Arith.exact_int64, Int.neg_mul]
      exact Int.neg_nonpos_of_nonneg (Int.mul_pos (hv.price_pos price hprice) hv.qty_pos).le
    | marketBid fillCost hside htype hc =>
      rw [Arith.exact_int]
      exact Int.neg_nonpos_of_nonneg (hcost ⟨htype, hside⟩ fillCost hc)
    | ask hside =>
      rw [Arith.exact_int]
      exact Int.neg_nonpos_of_nonneg hv.qty_pos.le
  rw [BalanceChecker.balance_updated]
  split <;> omega

/-- Only responses raise a balance. -/
private theorem balance_le_of_move (h : s.Agrees cfg) (hq : s.QuoteProtocol .exact) {e : Event}
    (hm : Move cfg .exact s e s') (he : ∀ ids, e ≠ .response ids) :
    s'.om.balanceChecker.balance u tk ≤ s.om.balanceChecker.balance u tk := by
  cases hm with
  | forwarded o gw ids userId bc hr hnm hv => exact balance_le_of_validated hv fun hmarket => absurd hmarket hnm
  | answerAccepted o gw cost answers ids bc hw ha hv =>
    obtain ⟨haw, -, -⟩ := h.waiting o gw hw
    obtain ⟨-, -, b, hb, hquote⟩ := hq.answer hw ha
    have hbok := (h.placed.engine_ok.book_ok _ b hb).1
    refine balance_le_of_validated hv fun hmarket c hc => ?_
    subst hc
    rw [quote_eq_cost hbok hmarket haw.price_eq hv.qty_pos hquote o.id]
    exact hbok.costOf_fills_nonneg hv.qty_pos.le
  | settled t responses ids om hw hr hu => exact absurd rfl (he ids)
  | confirmed id clOrdId responses ids om hw hr hu => exact absurd rfl (he ids)
  | cancelFailed id clOrdId responses ids hw hr => exact absurd rfl (he ids)
  | _ => exact Int.le_refl _

/-- A response is about dollars and active symbols only. -/
private theorem Agrees.settledEntries_active (h : s.Agrees cfg) {c : Container} (hc : c ∈ s.responses)
    {entry : BalanceEntry} (hentry : entry ∈ s.om.settledEntries c) :
    entry.2 = usdSymbol ∨ entry.2 ∈ cfg.activeSymbols := by
  have hstream : c ∈ s.stream := List.mem_append_right _ hc
  cases c with
  | trade t =>
    obtain ⟨taker, htk, maker, -, hb⟩ := h.placed.trades t hstream
    have hactive : t.ticker ∈ cfg.activeSymbols := hb.taker_symbol ▸ (h.placed.admitted taker htk).symbol_active
    simp only [OrderManager.settledEntries, TradeContainer.entries, List.mem_cons, List.not_mem_nil, or_false]
      at hentry
    rcases hentry with rfl | rfl | rfl | rfl
    · exact .inl rfl
    · exact .inr hactive
    · exact .inl rfl
    · exact .inr hactive
  | cancelOrderResponse r =>
    obtain ⟨id, clOrdId, success⟩ := r
    cases success with
    | false => cases hentry
    | true =>
      obtain ⟨-, -, o, ho, rfl, -⟩ := h.placed.closed _ hstream id rfl
      obtain ⟨info, hinfo, hrec⟩ := h.recorded o ho
      simp only [OrderManager.settledEntries, if_true, hinfo, Option.map_some, Option.toList_some,
        List.mem_singleton] at hentry
      subst hentry
      unfold OrderInfo.refundedEntry
      cases info.side with
      | bid => exact .inl rfl
      | ask => exact .inr (hrec.symbol_eq ▸ (h.placed.admitted o ho).symbol_active)
  | _ => cases hentry

end Exchange

private theorem TradeContainer.flow_eq_zero {t : TradeContainer} {u tk : String} (h : (u, tk) ∉ t.entries) :
    t.flow u tk = 0 := by
  simp only [entries, List.mem_cons, Prod.mk.injEq, List.not_mem_nil, or_false, not_or] at h
  obtain ⟨hbuyerUsd, hbuyerTicker, hsellerUsd, hsellerTicker⟩ := h
  unfold flow
  grind

/-- The balances that a response is not about see no trade in it. -/
private theorem History.netFlow_process {om : OrderManager} {c : Container} {u tk : String}
    (h : (u, tk) ∉ om.settledEntries c) (history : History) :
    netFlow (history.process c).settled u tk = netFlow history.settled u tk := by
  have hsettled : (history.process c).settled = history.settled ++ c.trade?.toList := by
    rw [settled, process, List.filterMap_append]
    cases c <;> rfl
  rw [hsettled, netFlow, List.map_append, List.sum_append, ← netFlow]
  cases c with
  | trade t => simp [Container.trade?, t.flow_eq_zero h]
  | _ => simp [Container.trade?]

/-! ### Runs -/

/-- The exchange, the calls of the database client that its order manager has still to make, and the tables. -/
structure Running where
  exchange : Exchange
  pending : List DatabaseCall
  store : Store

/-- An event of the exchange, or the next call of the database client, which may fail. -/
inductive RunningEvent
  | exchange (e : Event)
  | call (ok : Bool)

namespace RunningEvent

/-- The gateways send what they are fed, and no call fails. -/
def Sound : RunningEvent → Prop
  | exchange e => Exchange.Fed e
  | call ok => ok = true

instance : DecidablePred Sound
  | exchange e => inferInstanceAs (Decidable (Exchange.Fed e))
  | call ok => inferInstanceAs (Decidable (ok = true))

end RunningEvent

/-- The event is one of the matching engine, which does not wait for the order manager. -/
def Event.OfEngine : Event → Prop
  | .matching _ => True
  | _ => False

instance : DecidablePred Event.OfEngine
  | .request .. | .answer .. | .response .. => inferInstanceAs (Decidable False)
  | .matching _ => inferInstanceAs (Decidable True)

namespace Running

section

variable (cfg : Config)

/-- The order manager goes on when its calls are made.  The error of a call is logged. -/
def step (s : Running) : RunningEvent → Option Running
  | .exchange e =>
    if s.pending = [] ∨ e.OfEngine then
      (s.exchange.step cfg .exact e).map fun x =>
        ⟨x, s.pending ++ (s.exchange.output cfg .exact e).database, s.store⟩
    else none
  | .call ok =>
    match s.pending with
    | [] => none
    | call :: pending => some ⟨s.exchange, pending, if ok then s.store.apply call else s.store⟩

def start (balances : BalanceChecker) (st : Store) : Running := ⟨.start cfg balances, [], st⟩

/-- Runs in which no call fails. -/
abbrev Reachable (balances : BalanceChecker) (st : Store) : Running → Prop :=
  Reach (step cfg) (fun _ e => e.Sound) (start cfg balances st)

/-- Each user has a row for dollars and for each symbol. -/
def Full (st : Store) : Prop :=
  ∀ u userId, cfg.usernameUserIdMap u = some userId → ∀ symbol, symbol = usdSymbol ∨ symbol ∈ cfg.activeSymbols →
    ∃ b, ⟨userId, cfg.serverId, symbol, b⟩ ∈ st.balances

end

variable {cfg : Config} {balances : BalanceChecker} {st₀ st : Store} {x : Exchange} {s : Running}

/-- The tables when the calls that are left are made. -/
def settledStore (s : Running) : Store := s.store.execute s.pending

/-- The balance of the table, zero where there is none. -/
def recorded (cfg : Config) (st : Store) (u tk : String) : Int := (stored cfg st.balanceTable (u, tk)).getD 0

/-- What the tables keep of the balances. -/
structure Backed (cfg : Config) (balances : BalanceChecker) (st₀ : Store) (x : Exchange) (st : Store) : Prop where
  reachable : Exchange.Reachable cfg balances x
  same : st₀.SameKeys st
  least : ∀ u tk, x.om.balanceChecker.balance u tk ≤ recorded cfg st u tk
  most : ∀ u tk, recorded cfg st u tk ≤ balances.balance u tk + netFlow x.history.settled u tk

private theorem Full.hasRow (h : Full cfg st₀) {st : Store} (hsame : st₀.SameKeys st) {bc : BalanceChecker}
    {entry : BalanceEntry} {call : DatabaseCall} (hentry : entry.2 = usdSymbol ∨ entry.2 ∈ cfg.activeSymbols)
    (hw : Writes cfg bc entry call) : call.HasRow st.balanceTable := by
  obtain ⟨userId, x, huser, -, rfl⟩ := hw
  obtain ⟨b, hb⟩ := (hsame.mem_iff _ _ _).2 (h _ _ huser _ hentry)
  exact Option.ne_none_iff_exists'.2 ⟨b, Store.balanceTable_eq_some.2 hb⟩

/-- A step that is not about a response lowers balances in memory only. -/
private theorem Backed.step_other (h : Backed cfg balances st₀ x st) {e : Event} {x' : Exchange}
    (hreach : Exchange.Reachable cfg balances x')
    (hle : ∀ u tk, x'.om.balanceChecker.balance u tk ≤ x.om.balanceChecker.balance u tk)
    (hcalls : ∀ call ∈ (x.output cfg .exact e).database, call.IsInsert)
    (hsettled : x'.history.settled = x.history.settled) :
    Backed cfg balances st₀ x' (st.execute (x.output cfg .exact e).database) := by
  have hsame : ∀ u tk, recorded cfg (st.execute (x.output cfg .exact e).database) u tk = recorded cfg st u tk := by
    intro u tk
    rw [recorded, Store.balanceTable_execute, execute_inserts hcalls, ← recorded]
  refine ⟨hreach, h.same.trans (Store.sameKeys_execute _ _), fun u tk => ?_, fun u tk => ?_⟩
  · rw [hsame]
    exact (hle u tk).trans (h.least u tk)
  · rw [hsame, hsettled]
    exact h.most u tk

/-- A response is written through. -/
theorem Backed.step_response
    (hids : ∀ u v userId, cfg.usernameUserIdMap u = some userId → cfg.usernameUserIdMap v = some userId → u = v)
    (hfull : Full cfg st₀) (h : Backed cfg balances st₀ x st) {ids : Nat → String} {x' : Exchange}
    (hreach : Exchange.Reachable cfg balances x') (hx : x.step cfg .exact (.response ids) = some x') :
    Backed cfg balances st₀ x' (st.execute (x.output cfg .exact (.response ids)).database) := by
  obtain ⟨ha, -, -⟩ := Exchange.worth_of_reachable h.reachable
  obtain ⟨ha', -, hworth⟩ := Exchange.worth_of_reachable hreach
  obtain ⟨c, responses, om, out, hresponses, hr, rfl⟩ := Exchange.response_of_step hx
  obtain ⟨hdata, reports, database, -, hdatabase, rfl⟩ := handleResponse_eq_ok_iff.1 hr
  obtain ⟨insert, updates, rfl, hinsert, hwrites⟩ := updateDatabase_writes hdata hdatabase
  have houtput : (x.output cfg .exact (.response ids)).database = insert :: updates := by
    simp only [Exchange.output, hresponses, hr]
  have hrows : ∀ call ∈ updates, call.HasRow st.balanceTable := by
    intro call hcall
    obtain ⟨entry, hentry, hw⟩ := exists_of_forall₂ hwrites hcall
    have hc : c ∈ x.responses := by
      rw [hresponses]
      exact List.mem_cons_self
    exact hfull.hasRow h.same (ha.settledEntries_active hc hentry) hw
  have hstored : ∀ entry, stored cfg (st.execute (insert :: updates)).balanceTable entry =
      if entry ∈ x.om.settledEntries c then om.balance entry else stored cfg st.balanceTable entry := by
    intro entry
    rw [Store.balanceTable_execute, BalanceTable.execute, List.foldl_cons, hinsert.apply_eq, ← BalanceTable.execute]
    exact stored_execute hids hwrites hrows entry
  rw [houtput]
  refine ⟨hreach, h.same.trans (Store.sameKeys_execute _ _), fun u tk => ?_, fun u tk => ?_⟩
  · rw [recorded, hstored]
    split
    · exact Int.le_refl _
    · rename_i hentry
      have hbalance : om.balanceChecker.balance u tk = x.om.balanceChecker.balance u tk :=
        congrArg (Option.getD · 0) (updateInternalData_balance hdata hentry)
      exact hbalance ▸ h.least u tk
  · rw [recorded, hstored]
    split
    · -- what was written is what the user has, and orders hold back no less than nothing
      have hheld : 0 ≤ Exchange.heldBack _ u tk := ha'.heldBack_nonneg
      have hw := hworth u tk
      rw [Exchange.worth] at hw
      rw [ha'.heldBack_eq] at hheld
      show om.balanceChecker.balance u tk ≤ _
      dsimp only at hw hheld ⊢
      omega
    · rename_i hentry
      dsimp only
      rw [History.netFlow_process hentry]
      exact h.most u tk

/-- After an event of the exchange, once its calls are made. -/
theorem Backed.exchange
    (hids : ∀ u v userId, cfg.usernameUserIdMap u = some userId → cfg.usernameUserIdMap v = some userId → u = v)
    (hfull : Full cfg st₀) (h : Backed cfg balances st₀ x st) {e : Event} (hfed : Exchange.Fed e) {x' : Exchange}
    (hx : x.step cfg .exact e = some x') :
    Backed cfg balances st₀ x' (st.execute (x.output cfg .exact e).database) := by
  have hreach : Exchange.Reachable cfg balances x' := .next h.reachable hfed hx
  by_cases he : ∃ ids, e = .response ids
  · obtain ⟨ids, rfl⟩ := he
    exact h.step_response hids hfull hreach hx
  · have he' : ∀ ids, e ≠ .response ids := fun ids heq => he ⟨ids, heq⟩
    obtain ⟨ha, hq, -⟩ := Exchange.worth_of_reachable h.reachable
    obtain ⟨hcalls, hsettled⟩ := Exchange.inserts_of_step hx he'
    exact h.step_other hreach (fun u tk => Exchange.balance_le_of_move ha hq (ha.move_of_step hfed hx) he') hcalls
      hsettled

/-- The calls of an event are made in any number of steps, after those that were left. -/
private theorem settledStore_exchange (s : Running) (x : Exchange) (calls : List DatabaseCall) :
    settledStore ⟨x, s.pending ++ calls, s.store⟩ = s.settledStore.execute calls :=
  List.foldl_append

theorem Backed.step
    (hids : ∀ u v userId, cfg.usernameUserIdMap u = some userId → cfg.usernameUserIdMap v = some userId → u = v)
    (hfull : Full cfg st₀) (h : Backed cfg balances st₀ s.exchange s.settledStore) {e : RunningEvent}
    (hsound : e.Sound) {s' : Running} (hstep : s.step cfg e = some s') :
    Backed cfg balances st₀ s'.exchange s'.settledStore := by
  cases e with
  | exchange e =>
    simp only [Running.step] at hstep
    split at hstep
    · obtain ⟨x, hx, rfl⟩ := Option.map_eq_some_iff.1 hstep
      rw [settledStore_exchange]
      exact h.exchange hids hfull hsound hx
    · cases hstep
  | call ok =>
    obtain rfl : ok = true := hsound
    simp only [Running.step] at hstep
    cases hpending : s.pending with
    | nil =>
      rw [hpending] at hstep
      cases hstep
    | cons call pending =>
      rw [hpending] at hstep
      cases hstep
      rw [settledStore, hpending] at h
      exact h

private theorem recorded_of_startsWith {serverId adminId : Int} (h : StartsWith st serverId adminId cfg balances)
    (u tk : String) : recorded cfg st u tk = balances.balance u tk := by
  rw [recorded, h.stored]
  rfl

private theorem backed_of_reachable {serverId adminId : Int} (hstart : StartsWith st₀ serverId adminId cfg balances)
    (hfull : Full cfg st₀) (h : Reachable cfg balances st₀ s) :
    Backed cfg balances st₀ s.exchange s.settledStore := by
  refine h.invariant (I := fun s => Backed cfg balances st₀ s.exchange s.settledStore)
    ⟨.start, .refl st₀, fun u tk => ?_, fun u tk => ?_⟩
    fun s e s' hi hsound hs => hi.step hstart.injective hfull hsound hs
  · exact (recorded_of_startsWith hstart u tk).ge
  · refine (recorded_of_startsWith hstart u tk).le.trans ?_
    exact (Int.add_zero _).ge

/-- The tables hold at least what a user can spend, and at most what they have with what is held back. -/
theorem Backed.between (h : Backed cfg balances st₀ x st) (u tk : String) :
    x.om.balanceChecker.balance u tk ≤ recorded cfg st u tk ∧
      recorded cfg st u tk ≤ x.om.balanceChecker.balance u tk + x.heldBack u tk := by
  obtain ⟨ha, -, hworth⟩ := Exchange.worth_of_reachable h.reachable
  refine ⟨h.least u tk, ?_⟩
  have hmost := h.most u tk
  have hw := hworth u tk
  rw [Exchange.worth] at hw
  rw [ha.heldBack_eq]
  omega

private theorem Backed.sum_le (h : Backed cfg balances st₀ x st) {users : Finset String}
    (hu : ∀ u, cfg.usernameUserIdMap u ≠ none → u ∈ users) (tk : String) :
    ∑ u ∈ users, recorded cfg st u tk ≤ ∑ u ∈ users, balances.balance u tk := by
  obtain ⟨ha, -, -⟩ := Exchange.worth_of_reachable h.reachable
  have hflow : ∑ u ∈ users, netFlow x.history.settled u tk = 0 := sum_netFlow (fun t ht => by
    obtain ⟨hb, hs⟩ := ha.parties_known (List.mem_append_left _ (Exchange.mem_trades.1 ht))
    exact ⟨hu _ hb, hu _ hs⟩) tk
  calc ∑ u ∈ users, recorded cfg st u tk
      ≤ ∑ u ∈ users, (balances.balance u tk + netFlow x.history.settled u tk) :=
        Finset.sum_le_sum fun u _ => h.most u tk
    _ = ∑ u ∈ users, balances.balance u tk := by rw [Finset.sum_add_distrib, hflow, Int.add_zero]

end Running

/-! ### Restarts -/

section restart

variable {what serverName : String} {active : ActiveSymbols} {serverId adminId : Int}
variable {st st' : Store} {cfg : Config} {balances : BalanceChecker}

theorem Hosted.congr (h : Hosted st serverName serverId adminId) (hsame : st.SameKeys st') :
    Hosted st' serverName serverId adminId where
  row := hsame.db ▸ h.row
  admin := hsame.columns ▸ h.admin
  user := hsame.users ▸ h.user
  names u hu := h.names u (hsame.users ▸ hu)

theorem Running.Full.congr (h : Full cfg st) (hsame : st.SameKeys st') : Full cfg st' :=
  fun u userId hu symbol hsymbol => (hsame.mem_iff userId cfg.serverId symbol).2 (h u userId hu symbol hsymbol)

/-- With other balances in the tables the order manager starts as before. -/
private theorem startUp_of_sameKeys (hosted : Hosted st serverName serverId adminId)
    (hstart : startUp .exact st what serverName active = .ok (cfg, balances)) (hsame : st.SameKeys st') :
    ∃ balances', startUp .exact st' what serverName active = .ok (cfg, balances') ∧
      StartsWith st' serverId adminId cfg balances' := by
  obtain ⟨hstarts, hspec⟩ := startUp_spec .exact what active hosted
  obtain ⟨hstarts', hspec'⟩ := startUp_spec .exact what active (hosted.congr hsame)
  obtain ⟨hname, hactive, hwith⟩ := hspec cfg balances hstart
  obtain ⟨cfg', balances', hstart'⟩ := hstarts'.2 fun userId u symbol b hloaded => by
    obtain ⟨b', hb'⟩ := (isLoaded_congr hsame userId u symbol).1 ⟨b, hloaded⟩
    exact hstarts.1 ⟨cfg, balances, hstart⟩ userId u symbol b' hb'
  obtain ⟨hname', hactive', hwith'⟩ := hspec' cfg' balances' hstart'
  have hcfg : cfg' = cfg := by
    have husers := hwith.users_congr hwith' hsame
    have hserver := hwith'.server.trans hwith.server.symm
    cases cfg
    cases cfg'
    simp only [Config.mk.injEq]
    exact ⟨hname'.trans hname.symm, hserver, hactive'.trans hactive.symm, husers⟩
  subst hcfg
  exact ⟨balances', hstart', hwith'⟩

/-- An order manager that is started from the tables that another one has left, in any state of any run in which no
call of the database client has failed and none is left to be made, has the same users and symbols.  Each balance is
at least what the user could spend before, and at most that with what their orders held back. -/
theorem restart_between (hosted : Hosted st serverName serverId adminId)
    (hstart : startUp .exact st what serverName active = .ok (cfg, balances)) (hfull : Running.Full cfg st)
    {s : Running} (h : Running.Reachable cfg balances st s) (hidle : s.pending = []) :
    ∃ balances', startUp .exact s.store what serverName active = .ok (cfg, balances') ∧ ∀ u tk,
      s.exchange.om.balanceChecker.balance u tk ≤ balances'.balance u tk ∧
        balances'.balance u tk ≤ s.exchange.om.balanceChecker.balance u tk + s.exchange.heldBack u tk := by
  obtain ⟨-, -, hwith⟩ := (startUp_spec .exact what active hosted).2 cfg balances hstart
  have hbacked := Running.backed_of_reachable hwith hfull h
  rw [Running.settledStore, hidle] at hbacked
  obtain ⟨balances', hstart', hwith'⟩ := startUp_of_sameKeys hosted hstart hbacked.same
  refine ⟨balances', hstart', fun u tk => ?_⟩
  rw [← Running.recorded_of_startsWith hwith']
  exact hbacked.between u tk

/-- The tables before and after a life of the exchange, from its start to any state in which no call is left to be
made; none has failed. -/
def Session (what serverName : String) (active : ActiveSymbols) (st st' : Store) : Prop :=
  ∃ cfg balances s, startUp .exact st what serverName active = .ok (cfg, balances) ∧
    Running.Reachable cfg balances st s ∧ s.pending = [] ∧ s.store = st'

end restart

/-! ### Sample runs -/

/-- The tables of a server with two users. -/
def sampleTables : Store :=
  { sampleConfigWorld.store with
    balances := [⟨1, 7, "USD", 100000⟩, ⟨1, 7, "GME", 0⟩, ⟨2, 7, "USD", 100000⟩, ⟨2, 7, "GME", 50⟩]
    balance_key := by decide
    balance_server := by decide
    balance_user := by decide }

private theorem sampleTables_hosted : Hosted sampleTables "alpha" 7 1 where
  row := List.mem_singleton_self _
  admin := rfl
  user := List.mem_cons_self
  names := (show ∀ u ∈ [⟨1, "ann"⟩, (⟨2, "bob"⟩ : UserRow)], CString.NulFree u.username by decide)

def gmeOnly : ActiveSymbols := ⟨["GME"], twoUsers.symbols_nulFree⟩

/-- The start from the tables of the sample. -/
def sampleStart (st : Store) : Except StartError (Config × BalanceChecker) := startUp .exact st "" "alpha" gmeOnly

private theorem sampleTables_full {cfg : Config} {balances : BalanceChecker}
    (h : sampleStart sampleTables = .ok (cfg, balances)) : Running.Full cfg sampleTables := by
  obtain ⟨-, hactive, hwith⟩ := (startUp_spec .exact "" gmeOnly sampleTables_hosted).2 cfg balances h
  intro u userId hu symbol hsymbol
  obtain ⟨_, b, hloaded⟩ := (hwith.user u userId).1 hu
  have huser := hloaded.row
  simp only [sampleTables, List.mem_cons, List.not_mem_nil, or_false, BalanceRow.mk.injEq] at huser ⊢
  rw [hactive, gmeOnly, List.mem_singleton] at hsymbol
  rw [hwith.server]
  rcases hsymbol with rfl | rfl
  · obtain ⟨rfl, -⟩ | ⟨rfl, -⟩ | ⟨rfl, -⟩ | ⟨rfl, -⟩ := huser <;> simp [usdSymbol]
  · obtain ⟨rfl, -⟩ | ⟨rfl, -⟩ | ⟨rfl, -⟩ | ⟨rfl, -⟩ := huser <;> simp

private theorem sampleUsers_mem {cfg : Config} {balances : BalanceChecker}
    (h : sampleStart sampleTables = .ok (cfg, balances)) {u : String} (hu : cfg.usernameUserIdMap u ≠ none) :
    u ∈ ({"ann", "bob"} : Finset String) := by
  obtain ⟨-, -, hwith⟩ := (startUp_spec .exact "" gmeOnly sampleTables_hosted).2 cfg balances h
  obtain ⟨userId, huser⟩ := Option.ne_none_iff_exists'.1 hu
  obtain ⟨_, _, hloaded⟩ := (hwith.user u userId).1 huser
  have hrow : ⟨userId, u⟩ ∈ [⟨1, "ann"⟩, (⟨2, "bob"⟩ : UserRow)] := hloaded.user
  simp only [List.mem_cons, List.not_mem_nil, or_false, UserRow.mk.injEq] at hrow
  rw [Finset.mem_insert, Finset.mem_singleton]
  exact hrow.imp And.right And.right

/-- The events of the exchange, each with its calls. -/
def pacedEvents (es : List (Event × Nat)) : List RunningEvent :=
  es.flatMap fun e => .exchange e.1 :: List.replicate e.2 (.call true)

/-- `bob` offers ten shares. -/
def sampleOffer : List (Event × Nat) := [(.request (.newOrderSingle Exchange.sampleAsk) 0 Exchange.noIds, 1)]

/-- `ann` buys four of them. -/
def samplePurchase : List (Event × Nat) :=
  sampleOffer ++ [(.matching Exchange.zeroStamps, 0),
    (.request (.newOrderSingle Exchange.sampleBid) 0 Exchange.noIds, 1), (.matching Exchange.zeroStamps, 0)]

/-- The shares of a user after a start from the tables. -/
def sampleShares (st : Store) (u : String) : Option Int :=
  (sampleStart st).toOption.map fun r => r.2.balance u "GME"

/-- A run from the tables of the sample to a state in which no call is left, and the order manager and one that is
started anew have given shares of `bob`. -/
private theorem sample_session (es : List RunningEvent) (held shares : Int)
    (hrun : ((sampleStart sampleTables).toOption.any fun r =>
      (execIf (Running.step r.1) (fun _ e => e.Sound) (Running.start r.1 r.2 sampleTables) es).any fun s =>
        decide (s.exchange.om.balanceChecker.balance "bob" "GME" = held ∧ s.pending.isEmpty = true ∧
          sampleShares s.store "bob" = some shares)) = true) :
    ∃ cfg balances s, sampleStart sampleTables = .ok (cfg, balances) ∧
      Running.Reachable cfg balances sampleTables s ∧ s.pending = [] ∧
      s.exchange.om.balanceChecker.balance "bob" "GME" = held ∧
      ∀ cfg' balances', sampleStart s.store = .ok (cfg', balances') → balances'.balance "bob" "GME" = shares := by
  cases hstart : sampleStart sampleTables with
  | error f =>
    rw [hstart] at hrun
    cases hrun
  | ok r =>
    rw [hstart] at hrun
    obtain ⟨s, hreach, h⟩ := Reach.exists_of_execIf hrun
    obtain ⟨hheld, hidle, hshares⟩ := of_decide_eq_true h
    refine ⟨r.1, r.2, s, rfl, hreach, List.isEmpty_iff.1 hidle, hheld, fun cfg' balances' hagain => ?_⟩
    rw [sampleShares, hagain] at hshares
    exact Option.some.inj hshares

/-- `bob` offers ten of fifty shares, and has all of them after a restart. -/
theorem restart_between_sample : ∃ cfg balances s balances',
    startUp .exact sampleTables "" "alpha" gmeOnly = .ok (cfg, balances) ∧
    Running.Reachable cfg balances sampleTables s ∧ s.pending = [] ∧
    s.exchange.om.balanceChecker.balance "bob" "GME" = 40 ∧
    startUp .exact s.store "" "alpha" gmeOnly = .ok (cfg, balances') ∧ balances'.balance "bob" "GME" = 50 ∧
    50 ≤ 40 + s.exchange.heldBack "bob" "GME" := by
  obtain ⟨cfg, balances, s, hstart, hreach, hidle, hmemory, hshares⟩ :=
    sample_session (pacedEvents sampleOffer) 40 50 (by decide +kernel)
  obtain ⟨balances', hagain, hbetween⟩ :=
    restart_between sampleTables_hosted hstart (sampleTables_full hstart) hreach hidle
  have hbob := hshares cfg balances' hagain
  refine ⟨cfg, balances, s, balances', hstart, hreach, hidle, hmemory, hagain, hbob, ?_⟩
  rw [← hmemory, ← hbob]
  exact (hbetween "bob" "GME").2

/-- An order manager that stops before the last call of the trade leaves 54 shares in the tables, where there were
50. -/
example : ((sampleStart sampleTables).toOption.bind fun r =>
    (execIf (Running.step r.1) (fun _ e => e.Sound) (Running.start r.1 r.2 sampleTables)
      (pacedEvents (samplePurchase ++ [(.response Exchange.noIds, 4)]))).map fun s =>
        (sampleShares s.store "ann", sampleShares s.store "bob")) = some (some 4, some 50) := by
  decide +kernel

end Elsa
