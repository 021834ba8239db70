import Elsa.Base.Effects
import Elsa.Backend.CreateServer
import Elsa.Backend.PgArray

/-!
# The tables behind a server

The tables that `handle_create_server` reads and writes, with the primary keys, unique columns and references of
`init_postgresql.sql`, and the calls of `DatabaseClient` as transactions on them.  A call that would break a
constraint fails and changes nothing.  Any other call may fail as well, for a reason that comes from outside; so may
one whose text does not fit its column.

Of the servers the name, the admin, the description and the symbols are kept, of the users the name: nothing here
reads the other columns.
-/

namespace Elsa.Backend

open Base

structure UserRow where
  userId : Int
  username : String
deriving DecidableEq, Repr

structure AllowlistRow where
  serverId : Int
  userId : Int
deriving DecidableEq, Repr

structure BalanceRow where
  userId : Int
  serverId : Int
  symbol : String
  balance : Int
deriving DecidableEq, Repr

/-- A row of `init_bot_portfolio_balances`. -/
structure PortfolioRow where
  userId : Int
  serverId : Int
  balance : Int
deriving DecidableEq, Repr

def AllowlistRow.key (r : AllowlistRow) : Int × Int := (r.serverId, r.userId)

def BalanceRow.key (r : BalanceRow) : Int × String × Int := (r.userId, r.symbol, r.serverId)

def PortfolioRow.key (r : PortfolioRow) : Int × Int := (r.userId, r.serverId)

/-- The columns of a row of `servers` besides its id and its name. -/
structure ServerColumns where
  adminId : Option Int
  description : Option String
  activeTickers : Option String
deriving DecidableEq, Repr

/-- The tables; `columns` gives the other columns of a server by its id. -/
structure Store where
  db : Database
  columns : Int → ServerColumns
  users : List UserRow
  allowlist : List AllowlistRow
  balances : List BalanceRow
  initBotPortfolioBalances : List PortfolioRow
  user_key : (users.map UserRow.userId).Nodup
  user_name : (users.map UserRow.username).Nodup
  allowlist_key : (allowlist.map AllowlistRow.key).Nodup
  allowlist_server : ∀ r ∈ allowlist, r.serverId ∈ db.servers.map ServerRow.serverId
  allowlist_user : ∀ r ∈ allowlist, r.userId ∈ users.map UserRow.userId
  balance_key : (balances.map BalanceRow.key).Nodup
  balance_server : ∀ r ∈ balances, r.serverId ∈ db.servers.map ServerRow.serverId
  balance_user : ∀ r ∈ balances, r.userId ∈ users.map UserRow.userId
  portfolio_key : (initBotPortfolioBalances.map PortfolioRow.key).Nodup
  portfolio_server : ∀ r ∈ initBotPortfolioBalances, r.serverId ∈ db.servers.map ServerRow.serverId
  portfolio_user : ∀ r ∈ initBotPortfolioBalances, r.userId ∈ users.map UserRow.userId

namespace Store

/-! ### Users -/

def getUser (st : Store) (username : String) : Option UserRow := st.users.find? fun u => u.username = username

/-- `create_user`, with the id that the sequence of the table gives. -/
def createUser (st : Store) (userId : Int) (username : String) : Option Store :=
  if h : userId ∉ st.users.map UserRow.userId ∧ username ∉ st.users.map UserRow.username then
    some { st with
      users := st.users ++ [⟨userId, username⟩]
      user_key := nodup_map_concat st.user_key h.1
      user_name := nodup_map_concat st.user_name h.2
      allowlist_user := fun r hr => by rw [List.map_append]; exact List.mem_append_left _ (st.allowlist_user r hr)
      balance_user := fun r hr => by rw [List.map_append]; exact List.mem_append_left _ (st.balance_user r hr)
      portfolio_user := fun r hr => by rw [List.map_append]; exact List.mem_append_left _ (st.portfolio_user r hr) }
  else none

theorem createUser_eq_some {st st' : Store} {userId : Int} {username : String}
    (h : st.createUser userId username = some st') :
    st'.users = st.users ++ [⟨userId, username⟩] ∧ st'.db = st.db ∧ st'.columns = st.columns ∧
      st'.allowlist = st.allowlist ∧ st'.balances = st.balances := by
  unfold createUser at h
  split at h
  · cases h
    exact ⟨rfl, rfl, rfl, rfl, rfl⟩
  · cases h

/-! ### Servers -/

/-- The rows that are inserted for a server. -/
def allowlistRows (serverId : Int) (userIds : List Int) : List AllowlistRow :=
  userIds.map fun userId => ⟨serverId, userId⟩

private theorem allowlist_key_append {st : Store} {serverId : Int} {userIds : List Int}
    (hid : serverId ∉ st.db.servers.map ServerRow.serverId) (hnodup : userIds.Nodup) :
    ((st.allowlist ++ allowlistRows serverId userIds).map AllowlistRow.key).Nodup := by
  rw [List.map_append, List.nodup_append]
  refine ⟨st.allowlist_key, ?_, ?_⟩
  · rw [allowlistRows, List.map_map]
    exact hnodup.map fun u u' h => (Prod.mk.inj h).2
  · rintro k hk k' hk' rfl
    obtain ⟨r, hr, rfl⟩ := List.mem_map.1 hk
    obtain ⟨r', hr', heq⟩ := List.mem_map.1 hk'
    obtain ⟨userId, -, rfl⟩ := List.mem_map.1 hr'
    have hserver : serverId = r.serverId := (Prod.mk.inj heq).1
    exact hid (hserver ▸ st.allowlist_server r hr)

/-- What `create_server_with_services` is called with. -/
structure ServerInsert where
  serverName : String
  adminId : Int
  description : String
  symbols : List String
  allowlistUserIds : List Int
  services : List ServiceInsertRow

/-- `create_server_with_services`: the server, its allowlist and its services in one transaction. -/
def createServerWithServices (st : Store) (serverId : Int) (new : ServerInsert) : Option Store :=
  match hdb : st.db.createServerWithServices serverId new.serverName new.services with
  | none => none
  | some db =>
    if h : new.adminId ∈ st.users.map UserRow.userId ∧ new.allowlistUserIds.Nodup ∧
        ∀ userId ∈ new.allowlistUserIds, userId ∈ st.users.map UserRow.userId then
      have hc := Database.createServerWithServices_eq_some hdb
      have hgrow : ∀ id ∈ st.db.servers.map ServerRow.serverId, id ∈ db.servers.map ServerRow.serverId :=
        fun id hmem => by
        rw [hc.servers, List.map_append]
        exact List.mem_append_left _ hmem
      some { st with
        db
        columns := Function.update st.columns serverId
          ⟨some new.adminId, some new.description, some (buildPgArray new.symbols)⟩
        allowlist := st.allowlist ++ allowlistRows serverId new.allowlistUserIds
        allowlist_key := allowlist_key_append hc.insertable.1 h.2.1
        allowlist_server := fun r hr => by
          rcases List.mem_append.1 hr with hr | hr
          · exact hgrow _ (st.allowlist_server r hr)
          · obtain ⟨userId, -, rfl⟩ := List.mem_map.1 hr
            rw [hc.servers, List.map_append]
            exact List.mem_append_right _ List.mem_cons_self
        allowlist_user := fun r hr => by
          rcases List.mem_append.1 hr with hr | hr
          · exact st.allowlist_user r hr
          · obtain ⟨userId, hmem, rfl⟩ := List.mem_map.1 hr
            exact h.2.2 userId hmem
        balance_server := fun r hr => hgrow _ (st.balance_server r hr)
        portfolio_server := fun r hr => hgrow _ (st.portfolio_server r hr) }
    else none

/-- What the transaction has written. -/
structure ServerCreated (serverId : Int) (new : ServerInsert) (st st' : Store) : Prop where
  db : st.db.Created serverId new.serverName new.services st'.db
  columns : st'.columns = Function.update st.columns serverId
    ⟨some new.adminId, some new.description, some (buildPgArray new.symbols)⟩
  users : st'.users = st.users
  allowlist : st'.allowlist = st.allowlist ++ allowlistRows serverId new.allowlistUserIds
  balances : st'.balances = st.balances
  admin : new.adminId ∈ st.users.map UserRow.userId
  nodup : new.allowlistUserIds.Nodup

theorem createServerWithServices_eq_some {st st' : Store} {serverId : Int} {new : ServerInsert}
    (h : st.createServerWithServices serverId new = some st') : ServerCreated serverId new st st' := by
  unfold createServerWithServices at h
  split at h
  · cases h
  · rename_i db hdb
    split at h
    · rename_i hrows
      cases h
      exact ⟨Database.createServerWithServices_eq_some hdb, rfl, rfl, rfl, rfl, hrows.1, hrows.2.1⟩
    · cases h

/-! ### Balances -/

def insertBalance (st : Store) (row : BalanceRow) : Option Store :=
  if h : row.key ∉ st.balances.map BalanceRow.key ∧ row.serverId ∈ st.db.servers.map ServerRow.serverId ∧
      row.userId ∈ st.users.map UserRow.userId then
    some { st with
      balances := st.balances ++ [row]
      balance_key := nodup_map_concat st.balance_key h.1
      balance_server := fun r hr => by
        rcases List.mem_append.1 hr with hr | hr
        · exact st.balance_server r hr
        · rw [List.mem_singleton.1 hr]
          exact h.2.1
      balance_user := fun r hr => by
        rcases List.mem_append.1 hr with hr | hr
        · exact st.balance_user r hr
        · rw [List.mem_singleton.1 hr]
          exact h.2.2 }
  else none

theorem insertBalance_eq_some {st st' : Store} {row : BalanceRow} (h : st.insertBalance row = some st') :
    st'.balances = st.balances ++ [row] ∧ st'.db = st.db ∧ st'.columns = st.columns ∧ st'.users = st.users ∧
      st'.allowlist = st.allowlist := by
  unfold insertBalance at h
  split at h
  · cases h
    exact ⟨rfl, rfl, rfl, rfl, rfl⟩
  · cases h

/-- A balance of a server and a user that are there is refused for its key alone. -/
theorem key_mem_of_insertBalance {st : Store} {row : BalanceRow}
    (hserver : row.serverId ∈ st.db.servers.map ServerRow.serverId) (huser : row.userId ∈ st.users.map UserRow.userId)
    (h : st.insertBalance row = none) : row.key ∈ st.balances.map BalanceRow.key := by
  by_contra hkey
  rw [insertBalance, dif_pos ⟨hkey, hserver, huser⟩] at h
  cases h

/-- `upsert_init_bot_portfolio_balance`: a row with the same key is replaced. -/
def upsertInitBotPortfolioBalance (st : Store) (row : PortfolioRow) : Option Store :=
  if h : row.serverId ∈ st.db.servers.map ServerRow.serverId ∧ row.userId ∈ st.users.map UserRow.userId then
    have hmem : ∀ r ∈ st.initBotPortfolioBalances.filter (fun r => r.key ≠ row.key) ++ [row],
        r ∈ st.initBotPortfolioBalances ∨ r = row := fun r hr => by
      rcases List.mem_append.1 hr with hr | hr
      · exact Or.inl (List.mem_of_mem_filter hr)
      · exact Or.inr (List.mem_singleton.1 hr)
    some { st with
      initBotPortfolioBalances := st.initBotPortfolioBalances.filter (fun r => r.key ≠ row.key) ++ [row]
      portfolio_key := by
        refine nodup_map_concat (st.portfolio_key.sublist (List.filter_sublist.map _)) fun hkey => ?_
        obtain ⟨r, hr, heq⟩ := List.mem_map.1 hkey
        exact of_decide_eq_true (List.mem_filter.1 hr).2 heq
      portfolio_server := fun r hr => by
        rcases hmem r hr with hr | rfl
        · exact st.portfolio_server r hr
        · exact h.1
      portfolio_user := fun r hr => by
        rcases hmem r hr with hr | rfl
        · exact st.portfolio_user r hr
        · exact h.2 }
  else none

theorem upsertInitBotPortfolioBalance_eq_some {st st' : Store} {row : PortfolioRow}
    (h : st.upsertInitBotPortfolioBalance row = some st') :
    st'.balances = st.balances ∧ st'.db = st.db ∧ st'.columns = st.columns ∧ st'.users = st.users ∧
      st'.allowlist = st.allowlist := by
  unfold upsertInitBotPortfolioBalance at h
  split at h
  · cases h
    exact ⟨rfl, rfl, rfl, rfl, rfl⟩
  · cases h

theorem upsertInitBotPortfolioBalance_ne_none {st : Store} {row : PortfolioRow}
    (hserver : row.serverId ∈ st.db.servers.map ServerRow.serverId)
    (huser : row.userId ∈ st.users.map UserRow.userId) : st.upsertInitBotPortfolioBalance row ≠ none := by
  rw [upsertInitBotPortfolioBalance, dif_pos ⟨hserver, huser⟩]
  exact Option.some_ne_none _

end Store

end Elsa.Backend
