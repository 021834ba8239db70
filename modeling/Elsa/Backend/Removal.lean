import Elsa.Backend.Configuration
import Elsa.Deployment.Removal

/-!
# The removal of a server

`handle_remove_server` checks that the caller is the admin of the server, asks the deployment servers to take away its
services one after the other, drops its tables in the time series database and deletes its rows in one transaction.  A
call that fails ends the request, and what the calls before it have done stays; only a failure to drop the tables is a
mere warning.

* A request that fails leaves the tables as they were, and one that succeeds comes from the admin and takes away the
  rows of the server and no others (`removal_all_or_nothing`).
* After any number of failed requests, with their services gone in part, a request that meets no failure completes the
  removal; the instances of the other servers are still there (`removal_retry`).  An install directory whose deletion
  has failed stays, though, since its unit file is gone.

A server has one service of each type.  The host of each deployment server is known by its address.
-/

namespace Elsa.Backend

open Base Effect Elsa.Deployment

/-- What `get_service_endpoint` returns. -/
structure ServiceEndpoint where
  ip : String
  port : Int
deriving DecidableEq, Repr

/-! ### The rows of a server -/

namespace Store

/-- `DELETE FROM allowlist WHERE server_id = $1`. -/
def deleteAllowlist (st : Store) (serverId : Int) : Store :=
  { st with
    allowlist := st.allowlist.filter fun r => r.serverId ≠ serverId
    allowlist_key := st.allowlist_key.sublist (List.filter_sublist.map _)
    allowlist_server := fun r hr => st.allowlist_server r (List.mem_of_mem_filter hr)
    allowlist_user := fun r hr => st.allowlist_user r (List.mem_of_mem_filter hr) }

/-- `DELETE FROM balances WHERE server_id = $1`. -/
def deleteBalances (st : Store) (serverId : Int) : Store :=
  { st with
    balances := st.balances.filter fun r => r.serverId ≠ serverId
    balance_key := st.balance_key.sublist (List.filter_sublist.map _)
    balance_server := fun r hr => st.balance_server r (List.mem_of_mem_filter hr)
    balance_user := fun r hr => st.balance_user r (List.mem_of_mem_filter hr) }

/-- `DELETE FROM services WHERE server_id = $1`. -/
def deleteServices (st : Store) (serverId : Int) : Store :=
  { st with
    db :=
      { st.db with
        services := st.db.services.filter fun r => r.serverId ≠ serverId
        service_key := st.db.service_key.sublist (List.filter_sublist.map _)
        service_server := fun r hr => st.db.service_server r (List.mem_of_mem_filter hr)
        service_machine := fun r hr => st.db.service_machine r (List.mem_of_mem_filter hr)
        service_port := fun r hr => st.db.service_port r (List.mem_of_mem_filter hr) } }

/-- A reference to a server that is not the deleted one. -/
private theorem mem_servers_filter {servers : List ServerRow} {serverId id : Int}
    (hmem : id ∈ servers.map ServerRow.serverId) (hne : id ≠ serverId) :
    id ∈ (servers.filter fun sv => sv.serverId ≠ serverId).map ServerRow.serverId := by
  obtain ⟨sv, hsv, rfl⟩ := List.mem_map.1 hmem
  exact List.mem_map_of_mem (List.mem_filter.2 ⟨hsv, decide_eq_true hne⟩)

/-- `DELETE FROM servers WHERE server_id = $1`: the rows that refer to the server go with it in `services` and
`init_bot_portfolio_balances`, and keep it from being deleted in `allowlist` and `balances`. -/
def deleteServers (st : Store) (serverId : Int) : Option Store :=
  if h : (∀ r ∈ st.allowlist, r.serverId ≠ serverId) ∧ ∀ r ∈ st.balances, r.serverId ≠ serverId then
    some { st with
      db :=
        { st.db with
          servers := st.db.servers.filter fun sv => sv.serverId ≠ serverId
          services := st.db.services.filter fun r => r.serverId ≠ serverId
          server_key := st.db.server_key.sublist (List.filter_sublist.map _)
          server_name := st.db.server_name.sublist (List.filter_sublist.map _)
          service_key := st.db.service_key.sublist (List.filter_sublist.map _)
          service_server := fun r hr =>
            mem_servers_filter (st.db.service_server r (List.mem_of_mem_filter hr))
              (of_decide_eq_true (List.mem_filter.1 hr).2)
          service_machine := fun r hr => st.db.service_machine r (List.mem_of_mem_filter hr)
          service_port := fun r hr => st.db.service_port r (List.mem_of_mem_filter hr) }
      initBotPortfolioBalances := st.initBotPortfolioBalances.filter fun r => r.serverId ≠ serverId
      allowlist_server := fun r hr => mem_servers_filter (st.allowlist_server r hr) (h.1 r hr)
      balance_server := fun r hr => mem_servers_filter (st.balance_server r hr) (h.2 r hr)
      portfolio_key := st.portfolio_key.sublist (List.filter_sublist.map _)
      portfolio_server := fun r hr =>
        mem_servers_filter (st.portfolio_server r (List.mem_of_mem_filter hr))
          (of_decide_eq_true (List.mem_filter.1 hr).2)
      portfolio_user := fun r hr => st.portfolio_user r (List.mem_of_mem_filter hr) }
  else none

/-- `delete_server`: whether there was one. -/
def deleteServer (st : Store) (serverName : String) : Option (Bool × Store) :=
  match st.db.servers.find? fun sv => sv.serverName = serverName with
  | none => some (false, st)
  | some sv =>
    ((((st.deleteAllowlist sv.serverId).deleteBalances sv.serverId).deleteServices sv.serverId).deleteServers
      sv.serverId).map fun st => (true, st)

/-- The rows of one server are gone, and nothing else. -/
structure Deleted (serverId : Int) (st st' : Store) : Prop where
  machines : st'.db.machines = st.db.machines
  users : st'.users = st.users
  columns : st'.columns = st.columns
  servers : st'.db.servers = st.db.servers.filter fun r => r.serverId ≠ serverId
  services : st'.db.services = st.db.services.filter fun r => r.serverId ≠ serverId
  allowlist : st'.allowlist = st.allowlist.filter fun r => r.serverId ≠ serverId
  balances : st'.balances = st.balances.filter fun r => r.serverId ≠ serverId
  portfolios : st'.initBotPortfolioBalances = st.initBotPortfolioBalances.filter fun r => r.serverId ≠ serverId

/-- No reference is in the way of the last deletion. -/
private theorem deleteServer_eq_some {st : Store} {serverId : Int} {serverName : String}
    (h : ⟨serverId, serverName⟩ ∈ st.db.servers) :
    ∃ st', st.deleteServer serverName = some (true, st') ∧ Deleted serverId st st' := by
  unfold deleteServer deleteServers
  rw [find?_of_nodup_map st.db.server_name h rfl]
  dsimp only
  rw [dif_pos ⟨fun r hr => of_decide_eq_true (List.mem_filter.1 hr).2,
    fun r hr => of_decide_eq_true (List.mem_filter.1 hr).2⟩]
  refine ⟨_, rfl, ⟨rfl, rfl, rfl, rfl, ?_, rfl, rfl, rfl⟩⟩
  simp [deleteServices, deleteBalances, deleteAllowlist]

/-- A service of the server, joined with its machine. -/
def getServiceEndpoint (st : Store) (serverName : String) (serviceType : ServiceType) : Option ServiceEndpoint :=
  st.db.services.findSome? fun r =>
    if r.serviceType = serviceType ∧ ∃ sv ∈ st.db.servers, sv.serverId = r.serverId ∧ sv.serverName = serverName then
      (st.db.machines.find? fun m => m.machineId = r.machineId).map fun m => ⟨m.ip, r.port⟩
    else none

end Store

/-! ### The request -/

/-- How a call of a deployment server goes. -/
inductive Delivery
  | answered
  /-- It is not carried out. -/
  | refused (what : String)
  /-- It is carried out, but there is no answer in time, or none that can be read. -/
  | unread (what : String)

/-- What a request meets besides the databases: how the calls of the deployment servers go, whether the commands and
the deletions that they make succeed, and the body of a response with an error. -/
structure RemovalEnv where
  env : Env
  alphabet : Alphabet
  delivery : Nat → Delivery
  run : Nat → HostCall → Bool
  errorBody : HostError → String

/-- The tables, the names of the tables of the time series database, and the hosts by their addresses. -/
structure RemovalWorld where
  tables : World
  questTables : List String
  hosts : String → Host

structure RemoveResponse where
  warning : Option String
  serverName : String
deriving DecidableEq, Repr

abbrev RemovalHandler := Effect RemovalWorld Failure

/-- A call that touches the tables alone. -/
def onTables {α : Type} (x : Handler α) : RemovalHandler α := fun w =>
  ((x w.tables).1, { w with tables := (x w.tables).2 })

def requestedName : Option Json → Except String String
  | none => .error "Invalid JSON body"
  | some (.object body) =>
    match body.lookup "server_name" with
    | some (.string serverName) => .ok serverName
    | _ => .error "Missing or invalid server_name"
  | some _ => .error "Body must be a JSON object"

section

variable (env : Env)

/-- The request up to the check of the admin. -/
def identifyServer (req : HttpRequest) : Handler String := do
  let callerId ← authenticateAdmin env req.authorization
  if callerId < 0 then fail (.authError "Unauthorized: valid Authorization header required")
  else do
    let serverName ← lift ((requestedName req.body).mapError .error)
    match ← attempt (getServer env serverName) with
    | .error _ => fail (.error "Internal server error")
    | .ok none => fail (.error ("Server not found: " ++ serverName))
    | .ok (some srv) =>
      if srv.adminId ≠ callerId then fail (.authError "Forbidden: you are not the admin of this server")
      else return serverName

def getServiceEndpoint (serverName : String) (service : ServiceType) : Handler (Option ServiceEndpoint) :=
  transaction env (.getServiceEndpoint serverName service)
    ("Error getting service endpoint for " ++ serverName ++ ": ") fun _ st =>
    some (st.getServiceEndpoint serverName service, st)

/-- The endpoint of a service that the request needs. -/
def serviceEndpoint (serverName serviceType : String) (service : ServiceType) : Handler ServiceEndpoint := do
  match ← getServiceEndpoint env serverName service with
  | none => fail (.error ("Service endpoint not found for " ++ serviceType ++ " on server " ++ serverName))
  | some endpoint => return endpoint

def deleteServer (serverName : String) : Handler Bool :=
  transaction env (.deleteServer serverName) "Error deleting server: " fun _ st => st.deleteServer serverName

/-- `drop_quest_tables`, in the other database. -/
def dropQuestTables (serverName : String) : RemovalHandler Unit := fun w =>
  let calls := w.tables.calls
  let tables := { w.tables with log := w.tables.log ++ [.dropQuestTables serverName] }
  if env.down calls then
    (.error (.error ("Error dropping quest db table for server " ++ serverName ++ ": " ++ env.what calls)),
      { w with tables })
  else
    (.ok (), { w with
      tables
      questTables := w.questTables.filter fun t => t ≠ "orders_" ++ serverName ∧ t ≠ "trades_" ++ serverName })

end

variable (R : RemovalEnv)

/-- `POST /remove_server` to the deployment server at an address. -/
def callRemove (ip serverName : String) (service : Service) : RemovalHandler Unit := fun w =>
  let calls := w.tables.calls
  let tables := { w.tables with log := w.tables.log ++ [.callRemove serverName] }
  let done := postRemoveServer R.alphabet (R.run calls) service.name serverName (w.hosts ip)
  let hosts := Function.update w.hosts ip done.2
  let failed (what : String) : Except Failure Unit :=
    .error (.error ("Error calling deployment_server " ++ ip ++ ":10000 for remove " ++ service.name ++ ": " ++ what))
  match R.delivery calls with
  | .refused what => (failed what, { w with tables })
  | .unread what => (failed what, { w with tables, hosts })
  | .answered =>
    match done.1 with
    | .ok _ => (.ok (), { w with tables, hosts })
    | .error e =>
      (.error (.error ("deployment_server " ++ ip ++ ":10000 returned status " ++ toString e.status ++
        " for remove " ++ service.name ++ ": " ++ R.errorBody e)), { w with tables, hosts })

/-- `remove_service`: at the address of the service. -/
def removeServiceOf (serverName : String) (service : Service × ServiceType) : RemovalHandler Unit := do
  let endpoint ← onTables (serviceEndpoint R.env serverName service.1.name service.2)
  callRemove R endpoint.ip serverName service.1

/-- The services whose endpoints are in the tables. -/
def coreServices : List (Service × ServiceType) := [(.mdp, .mdp), (.me, .me), (.oms, .oms), (.gateway, .gateway)]

/-- The services that are removed at the address of the gateway. -/
def simulationServices : List Service := [.mm, .nt, .it, .oracle]

def stopServices (serverName : String) : RemovalHandler Unit := do
  let gateway ← onTables (serviceEndpoint R.env serverName "gateway" .gateway)
  each (removeServiceOf R serverName) coreServices
  each (callRemove R gateway.ip serverName) simulationServices

/-- The tables of both databases. -/
def forgetServer (serverName : String) : RemovalHandler RemoveResponse := do
  let dropped ← attempt (dropQuestTables R.env serverName)
  let warning := match dropped with
    | .ok _ => none
    | .error (.error text) => some text
    | .error (.authError text) => some text
  let deleted ← onTables (deleteServer R.env serverName)
  if deleted then return { warning, serverName }
  else fail (.error ("Server not found: " ++ serverName))

def handleRemoveServer (req : HttpRequest) : RemovalHandler RemoveResponse := do
  let serverName ← onTables (identifyServer R.env req)
  stopServices R serverName
  forgetServer R serverName

/-! ### The tables -/

def RemovalWorld.store (w : RemovalWorld) : Store := w.tables.store

section tables

variable {R} {req : HttpRequest} {serverName : String} {w w' : RemovalWorld}

private theorem onTables_eq {α : Type} {x : Handler α} {r : Except Failure α} (h : onTables x w = (r, w')) :
    x w.tables = (r, w'.tables) ∧ w'.hosts = w.hosts := by
  obtain ⟨hres, rfl⟩ := Prod.mk.inj h
  exact ⟨Prod.ext hres rfl, rfl⟩

private theorem identifyServer_keeps (env : Env) (req : HttpRequest) :
    Keeps (fun w : World => id w.store) (identifyServer env req) := by
  refine (authenticateAdmin_keeps id _).bind fun callerId => Keeps.ite (Keeps.fail _) ?_
  refine (Keeps.lift _).bind fun serverName => (getServer_keeps serverName).attempt.bind fun found => ?_
  split
  · exact Keeps.fail _
  · exact Keeps.fail _
  · exact Keeps.ite (Keeps.fail _) (Keeps.pure _)

private theorem getServiceEndpoint_keeps {γ : Type} (env : Env) (obs : Store → γ) (serverName : String)
    (service : ServiceType) : Keeps (fun w : World => obs w.store) (getServiceEndpoint env serverName service) :=
  transaction_keeps fun _ _ _ _ h => by cases h; rfl

private theorem serviceEndpoint_keeps (env : Env) (serverName serviceType : String) (service : ServiceType) :
    Keeps (fun w : World => id w.store) (serviceEndpoint env serverName serviceType service) := by
  refine (getServiceEndpoint_keeps env id serverName service).bind fun endpoint => ?_
  cases endpoint with
  | none => exact Keeps.fail _
  | some endpoint => exact Keeps.pure _

private theorem callRemove_keeps (ip serverName : String) (service : Service) :
    Keeps RemovalWorld.store (callRemove R ip serverName service) := by
  intro w
  unfold callRemove
  dsimp only
  split
  · rfl
  · rfl
  · split <;> rfl

private theorem onTables_keeps {α : Type} {x : Handler α} (h : Keeps (fun w : World => id w.store) x) :
    Keeps RemovalWorld.store (onTables x) :=
  fun w => h w.tables

private theorem stopServices_keeps (serverName : String) : Keeps RemovalWorld.store (stopServices R serverName) := by
  refine (onTables_keeps (serviceEndpoint_keeps _ _ _ _)).bind fun gateway => ?_
  refine (Keeps.each (fun service => ?_) _).bind fun _ => Keeps.each (fun service => callRemove_keeps _ _ _) _
  exact (onTables_keeps (serviceEndpoint_keeps _ _ _ _)).bind fun endpoint => callRemove_keeps _ _ _

private theorem dropQuestTables_keeps (env : Env) (serverName : String) :
    Keeps (fun w : RemovalWorld => (w.store, w.hosts)) (dropQuestTables env serverName) := by
  intro w
  unfold dropQuestTables
  dsimp only
  split <;> rfl

private theorem Store.deleteServer_false {st st' : Store} {serverName : String}
    (h : st.deleteServer serverName = some (false, st')) : st' = st := by
  unfold deleteServer at h
  split at h
  · cases h
    rfl
  · obtain ⟨st₁, -, h⟩ := Option.map_eq_some_iff.1 h
    cases h

private theorem forgetServer_error {f : Failure} (h : forgetServer R serverName w = (.error f, w')) :
    w'.store = w.store := by
  rcases bind_eq_error.1 h with h | ⟨dropped, w₁, hdrop, h⟩
  · cases h
  have hrows : w₁.store = w.store := congrArg Prod.fst ((dropQuestTables_keeps _ _).attempt.of_run hdrop)
  rcases bind_eq_error.1 h with h | ⟨deleted, w₂, hdelete, h⟩
  · exact (transaction_eq_error (onTables_eq h).1).trans hrows
  · cases deleted with
    | true => cases h
    | false =>
      cases h
      exact (Store.deleteServer_false (transaction_eq_ok (onTables_eq hdelete).1)).trans hrows

private theorem forgetServer_ok {res : RemoveResponse} (h : forgetServer R serverName w = (.ok res, w')) :
    res.serverName = serverName ∧ w.store.deleteServer serverName = some (true, w'.store) ∧ w'.hosts = w.hosts := by
  obtain ⟨dropped, w₁, hdrop, h⟩ := bind_eq_ok.1 h
  have hrows : (w₁.store, w₁.hosts) = (w.store, w.hosts) := (dropQuestTables_keeps _ _).attempt.of_run hdrop
  obtain ⟨deleted, w₂, hdelete, h⟩ := bind_eq_ok.1 h
  obtain ⟨hdelete, hhosts⟩ := onTables_eq hdelete
  have hdeleted : w₁.store.deleteServer serverName = some (deleted, w₂.store) := transaction_eq_ok hdelete
  cases deleted with
  | false => cases h
  | true =>
    cases h
    have hstore : w₁.store = w.store := congrArg Prod.fst hrows
    exact ⟨rfl, hstore ▸ hdeleted, hhosts.trans (congrArg Prod.snd hrows)⟩

/-! ### The admin -/

/-- The request is made by the admin of the server that it names. -/
structure Authorised (req : HttpRequest) (serverName : String) (serverId : Int) (w : World) : Prop where
  name : requestedName req.body = .ok serverName
  user : ∃ username userId, req.authorization = some ("Bearer " ++ username) ∧ w.store.HasId username userId ∧
    0 ≤ userId ∧ (w.store.columns serverId).adminId = some userId
  row : ⟨serverId, serverName⟩ ∈ w.store.db.servers

/-- The request names one server. -/
theorem Authorised.unique {w : World} {serverName serverName' : String} {serverId serverId' : Int}
    (h : Authorised req serverName serverId w) (h' : Authorised req serverName' serverId' w) :
    serverName' = serverName ∧ serverId' = serverId := by
  have hname : serverName' = serverName := Except.ok.inj (h'.name.symm.trans h.name)
  exact ⟨hname, congrArg ServerRow.serverId (List.inj_on_of_nodup_map w.store.db.server_name h'.row h.row hname)⟩

private theorem authenticateAdmin_ok {env : Env} {authorization : Option String} {w w' : World} {callerId : Int}
    (h : authenticateAdmin env authorization w = (.ok callerId, w')) (hcaller : ¬ callerId < 0) :
    ∃ username, authorization = some ("Bearer " ++ username) ∧ w.store.HasId username callerId := by
  have hneg : ∀ {w₁ : World}, ¬ (Except.ok (-1 : Int), w₁) = ((.ok callerId, w') : Except Failure Int × World) := by
    intro w₁ heq
    cases heq
    exact hcaller (by decide)
  unfold authenticateAdmin at h
  split at h
  · exact absurd h hneg
  · rename_i value
    split at h
    · rename_i hbearer
      obtain ⟨username, hvalue⟩ := List.isPrefixOf_iff_prefix.1 hbearer
      have hdrop : value.toList.drop "Bearer ".length = username := by
        rw [← hvalue]
        exact List.drop_left
      obtain ⟨result, w₁, hget, h⟩ := bind_eq_ok.1 h
      rw [hdrop] at hget
      split at h
      · cases h
        refine ⟨String.ofList username, congrArg some ?_, Store.getUser_eq_some
          (getUser_ok (attempt_eq.1 hget)).1.symm⟩
        rw [← String.toList_inj, ← hvalue, String.toList_append]
        exact congrArg ("Bearer ".toList ++ ·) String.toList_ofList.symm
      · exact absurd h hneg
    · exact absurd h hneg

private theorem identifyServer_ok {env : Env} {w w' : World} (h : identifyServer env req w = (.ok serverName, w')) :
    ∃ serverId, Authorised req serverName serverId w := by
  obtain ⟨callerId, w₁, hauth, h⟩ := bind_eq_ok.1 h
  have hstore : w₁.store = w.store := (authenticateAdmin_keeps id _).of_run hauth
  split at h
  · cases h
  rename_i hcaller
  obtain ⟨username, hbearer, hid⟩ := authenticateAdmin_ok hauth hcaller
  obtain ⟨name, w₂, hname, h⟩ := bind_eq_ok.1 h
  obtain ⟨hname, rfl⟩ := Prod.mk.inj hname
  obtain ⟨found, w₃, hfound, h⟩ := bind_eq_ok.1 h
  split at h
  · cases h
  · cases h
  · rename_i srv
    split at h
    · cases h
    · rename_i hadmin
      cases h
      obtain ⟨hrow, -, hcolumn, -⟩ := Store.findServer_eq_some (getServer_ok hfound)
      rw [hstore] at hrow hcolumn
      rw [not_not.1 hadmin] at hcolumn
      refine ⟨srv.serverId, ?_, ⟨username, callerId, hbearer, hid, not_lt.1 hcaller, hcolumn⟩, hrow⟩
      cases hparse : requestedName req.body with
      | ok n => rw [hparse] at hname; cases hname; rfl
      | error text => rw [hparse] at hname; cases hname

private theorem handleRemoveServer_error {f : Failure} (h : handleRemoveServer R req w = (.error f, w')) :
    w'.store = w.store := by
  rcases bind_eq_error.1 h with h | ⟨serverName, w₁, hname, h⟩
  · exact (onTables_keeps (identifyServer_keeps _ _)).of_run h
  have hrows : w₁.store = w.store := (onTables_keeps (identifyServer_keeps _ _)).of_run hname
  rcases bind_eq_error.1 h with h | ⟨_, w₂, hstop, h⟩
  · exact ((stopServices_keeps _).of_run h).trans hrows
  have hrows₂ : w₂.store = w₁.store := (stopServices_keeps _).of_run hstop
  exact (forgetServer_error h).trans (hrows₂.trans hrows)

/-- What a request that succeeds has done. -/
private theorem handleRemoveServer_ok {res : RemoveResponse} (h : handleRemoveServer R req w = (.ok res, w')) :
    ∃ serverId, Authorised req res.serverName serverId w.tables ∧ Store.Deleted serverId w.store w'.store ∧
      ∃ w₁ w₂, w₁.store = w.store ∧ w₁.hosts = w.hosts ∧ stopServices R res.serverName w₁ = (.ok (), w₂) ∧
        w₂.store = w.store ∧ w'.hosts = w₂.hosts := by
  obtain ⟨serverName, w₁, hname, h⟩ := bind_eq_ok.1 h
  have hstore : w₁.store = w.store := (onTables_keeps (identifyServer_keeps _ _)).of_run hname
  obtain ⟨hidentify, hhosts⟩ := onTables_eq hname
  obtain ⟨_, w₂, hstop, h⟩ := bind_eq_ok.1 h
  have hstore₂ : w₂.store = w₁.store := (stopServices_keeps _).of_run hstop
  obtain ⟨serverId, hauth⟩ := identifyServer_ok hidentify
  obtain ⟨rfl, hdelete, hhosts₂⟩ := forgetServer_ok h
  obtain ⟨st', hst', hdeleted⟩ := Store.deleteServer_eq_some hauth.row
  rw [hstore₂.trans hstore] at hdelete
  obtain ⟨-, rfl⟩ := Prod.mk.inj (Option.some.inj (hst'.symm.trans hdelete))
  exact ⟨serverId, hauth, hdeleted, w₁, w₂, hstore, hhosts, hstop, hstore₂.trans hstore, hhosts₂⟩

/-- A request that fails leaves the tables as they were.  One that succeeds is made by the admin of the server that
it names, and the rows of this server and no others are gone. -/
theorem removal_all_or_nothing {r : Except Failure RemoveResponse} (h : handleRemoveServer R req w = (r, w')) :
    (∀ f, r = .error f → w'.store = w.store) ∧
    ∀ res, r = .ok res → ∃ serverId, Authorised req res.serverName serverId w.tables ∧
      Store.Deleted serverId w.store w'.store := by
  refine ⟨?_, ?_⟩
  · rintro f rfl
    exact handleRemoveServer_error h
  · rintro res rfl
    obtain ⟨serverId, hauth, hdeleted, -⟩ := handleRemoveServer_ok h
    exact ⟨serverId, hauth, hdeleted⟩

end tables

/-! ### The hosts -/

/-- The instances of the other servers stay on all hosts. -/
def HostsSpared (serverName : String) (w w' : RemovalWorld) : Prop :=
  ∀ ip, (w.hosts ip).Sheds (OnlyOf serverName) (w'.hosts ip)

/-- Hosts on which each install directory has its unit file stay so. -/
def HostsStayTidy (w w' : RemovalWorld) : Prop := ∀ ip, (w.hosts ip).StaysTidy (w'.hosts ip)

/-- The unit files of a service for the server are not at the address. -/
def Disabled (serverName : String) (service : Service) (ip : String) (w : RemovalWorld) : Prop :=
  ∀ x : Instance, (∀ tag ∈ x.groupTag, x.service.grouped = true) → x.service = service → x.server = serverName →
    unitFile x.name ∉ (w.hosts ip).units

/-- The unit files and the install directories of a service for the server are not at the address. -/
def Gone (serverName : String) (service : Service) (ip : String) (w : RemovalWorld) : Prop :=
  ∀ x : Instance, (∀ tag ∈ x.groupTag, x.service.grouped = true) → x.service = service → x.server = serverName →
    unitFile x.name ∉ (w.hosts ip).units ∧ x.name ∉ (w.hosts ip).dirs

/-- The unit files are not at the address of a service of the server. -/
def DisabledAt (serverName : String) (service : Service) (home : ServiceType) (w : RemovalWorld) : Prop :=
  ∀ endpoint, w.store.getServiceEndpoint serverName home = some endpoint → Disabled serverName service endpoint.ip w

/-- No deletion of an install directory fails. -/
def RemovalEnv.Clears (R : RemovalEnv) : Prop := ∀ k n, R.run k (.rmtree n) = true

section hosts

variable {R} {serverName : String} {w w' w'' : RemovalWorld}

theorem HostsSpared.refl (w : RemovalWorld) : HostsSpared serverName w w := fun ip => .refl (w.hosts ip)

theorem HostsSpared.trans (w w' w'' : RemovalWorld) (h : HostsSpared serverName w w')
    (h' : HostsSpared serverName w' w'') : HostsSpared serverName w w'' :=
  fun ip => (h ip).trans (h' ip)

theorem HostsStayTidy.refl (w : RemovalWorld) : HostsStayTidy w w := fun ip => .refl (w.hosts ip)

theorem HostsStayTidy.trans (w w' w'' : RemovalWorld) (h : HostsStayTidy w w') (h' : HostsStayTidy w' w'') :
    HostsStayTidy w w'' :=
  fun ip => .trans _ _ _ (h ip) (h' ip)

private theorem Disabled.of_spared {service : Service} {ip : String} (h : Disabled serverName service ip w)
    (hspared : HostsSpared serverName w w') : Disabled serverName service ip w' :=
  fun x htag hs hx hmem => h x htag hs hx ((hspared ip).units _ hmem)

/-- Where each install directory has its unit file the directories are gone with the unit files. -/
theorem Disabled.gone {service : Service} {ip : String} (h : Disabled serverName service ip w)
    (htidy : (w.hosts ip).Tidy) : Gone serverName service ip w :=
  fun x htag hs hx => ⟨h x htag hs hx, fun hdir => h x htag hs hx (htidy _ hdir)⟩

/-- A relation between hosts, at all addresses, holds after a call if it holds after what the deployment server
does. -/
private theorem callRemove_moves {T : Host → Host → Prop} (hrefl : ∀ host, T host host) (ip serverName : String)
    (service : Service)
    (hpost : ∀ k, Moves T (postRemoveServer R.alphabet (R.run k) service.name serverName)) :
    Moves (fun w w' : RemovalWorld => ∀ ip, T (w.hosts ip) (w'.hosts ip)) (callRemove R ip serverName service) := by
  intro w
  have hhosts : (callRemove R ip serverName service w).2.hosts = w.hosts ∨
      (callRemove R ip serverName service w).2.hosts = Function.update w.hosts ip
        (postRemoveServer R.alphabet (R.run w.tables.calls) service.name serverName (w.hosts ip)).2 := by
    unfold callRemove
    dsimp only
    split
    · exact .inl rfl
    · exact .inr rfl
    · split <;> exact .inr rfl
  intro ip'
  rcases hhosts with h | h
  · rw [h]
    exact hrefl _
  · rw [h]
    by_cases hip : ip' = ip
    · subst hip
      rw [Function.update_self]
      exact hpost _ _
    · rw [Function.update_of_ne hip]
      exact hrefl _

private theorem callRemove_spares (hvalid : isServerNameValid serverName = true) (ip : String) (service : Service) :
    Moves (HostsSpared serverName) (callRemove R ip serverName service) :=
  callRemove_moves Host.Sheds.refl ip serverName service fun _ => postRemoveServer_spares hvalid service

private theorem callRemove_stayTidy (hvalid : isServerNameValid serverName = true) (hclears : R.Clears) (ip : String)
    (service : Service) : Moves HostsStayTidy (callRemove R ip serverName service) :=
  callRemove_moves Host.StaysTidy.refl ip serverName service fun k =>
    postRemoveServer_staysTidy hvalid (hclears k) service

private theorem callRemove_disabled (hvalid : isServerNameValid serverName = true) {ip : String} {service : Service}
    (h : callRemove R ip serverName service w = (.ok (), w')) : Disabled serverName service ip w' := by
  unfold callRemove at h
  dsimp only at h
  split at h
  · cases h
  · cases h
  · split at h
    · rename_i removed hdone
      cases h
      intro x htag hs hx
      dsimp only
      rw [Function.update_self]
      exact postRemoveServer_clears hvalid (eq_of_fst hdone) htag hs hx
    · cases h

/-- What the calls of the deployment servers do to the hosts the whole request does. -/
private theorem handleRemoveServer_moves {T : RemovalWorld → RemovalWorld → Prop} (hrefl : ∀ w, T w w)
    (htrans : ∀ w w' w'', T w w' → T w' w'' → T w w'') (htables : ∀ w w', w'.hosts = w.hosts → T w w')
    {req : HttpRequest} (hcall : ∀ ip service, Moves T (callRemove R ip serverName service))
    (hname : requestedName req.body = .ok serverName) : Moves T (handleRemoveServer R req) := by
  have honTables : ∀ {α : Type} (x : Handler α), Moves T (onTables x) := fun x w => htables _ _ rfl
  have hservice : ∀ service, Moves T (removeServiceOf R serverName service) := fun service =>
    (honTables _).bind htrans fun endpoint => hcall endpoint.ip service.1
  have hstop : Moves T (stopServices R serverName) := by
    refine (honTables _).bind htrans fun gateway => ?_
    refine (Moves.each hrefl htrans fun service _ => hservice service).bind htrans fun _ => ?_
    exact Moves.each hrefl htrans fun service _ => hcall gateway.ip service
  have hforget : Moves T (forgetServer R serverName) := by
    have hdrop : Moves T (dropQuestTables R.env serverName) := fun w =>
      htables _ _ (congrArg Prod.snd (dropQuestTables_keeps R.env serverName w))
    refine hdrop.attempt.bind htrans fun dropped => (honTables _).bind htrans fun deleted => ?_
    exact Moves.ite hrefl hrefl
  intro w
  cases hidentify : onTables (identifyServer R.env req) w with
  | mk r w₁ =>
    have hfirst : T w w₁ := htables _ _ (onTables_eq hidentify).2
    unfold handleRemoveServer
    cases r with
    | error f =>
      rw [bind_of_error hidentify]
      exact hfirst
    | ok name =>
      obtain ⟨serverId, hauth⟩ := identifyServer_ok (onTables_eq hidentify).1
      obtain rfl : name = serverName := Except.ok.inj (hauth.name.symm.trans hname)
      rw [bind_of_ok hidentify]
      exact htrans _ _ _ hfirst (hstop.bind htrans (fun _ => hforget) w₁)

theorem HostsSpared.of_eq (w w' : RemovalWorld) (h : w'.hosts = w.hosts) : HostsSpared serverName w w' := fun ip => by
  rw [h]
  exact .refl (w.hosts ip)

theorem HostsStayTidy.of_eq (w w' : RemovalWorld) (h : w'.hosts = w.hosts) : HostsStayTidy w w' := fun ip => by
  rw [h]
  exact .refl (w.hosts ip)

/-- However a request ends, the instances of the other servers stay. -/
private theorem handleRemoveServer_spares {req : HttpRequest} (hname : requestedName req.body = .ok serverName)
    (hvalid : isServerNameValid serverName = true) : Moves (HostsSpared serverName) (handleRemoveServer R req) :=
  handleRemoveServer_moves HostsSpared.refl HostsSpared.trans HostsSpared.of_eq (callRemove_spares hvalid) hname

private theorem handleRemoveServer_stayTidy {req : HttpRequest} (hname : requestedName req.body = .ok serverName)
    (hvalid : isServerNameValid serverName = true) (hclears : R.Clears) :
    Moves HostsStayTidy (handleRemoveServer R req) :=
  handleRemoveServer_moves HostsStayTidy.refl HostsStayTidy.trans HostsStayTidy.of_eq
    (callRemove_stayTidy hvalid hclears) hname

private theorem serviceEndpoint_ok {env : Env} {serviceType : String} {service : ServiceType}
    {endpoint : ServiceEndpoint} {w w' : World}
    (h : serviceEndpoint env serverName serviceType service w = (.ok endpoint, w')) :
    w.store.getServiceEndpoint serverName service = some endpoint := by
  obtain ⟨found, w₁, hfound, h⟩ := bind_eq_ok.1 h
  have hread := transaction_eq_ok hfound
  cases found with
  | none => cases h
  | some e =>
    cases h
    exact (Prod.mk.inj (Option.some.inj hread)).1

private theorem removeServiceOf_keeps (serverName : String) (service : Service × ServiceType) :
    Keeps RemovalWorld.store (removeServiceOf R serverName service) :=
  (onTables_keeps (serviceEndpoint_keeps _ _ _ _)).bind fun _ => callRemove_keeps _ _ _

private theorem removeServiceOf_spares (hvalid : isServerNameValid serverName = true)
    (service : Service × ServiceType) : Moves (HostsSpared serverName) (removeServiceOf R serverName service) :=
  Moves.bind HostsSpared.trans (fun w => HostsSpared.of_eq w _ rfl) fun endpoint =>
    callRemove_spares hvalid endpoint.ip service.1

private theorem DisabledAt.of_spared {service : Service} {home : ServiceType}
    (h : DisabledAt serverName service home w) (hstore : w'.store = w.store) (hspared : HostsSpared serverName w w') :
    DisabledAt serverName service home w' := by
  intro endpoint hendpoint
  rw [hstore] at hendpoint
  exact (h endpoint hendpoint).of_spared hspared

private theorem removeServiceOf_disabled (hvalid : isServerNameValid serverName = true)
    {service : Service × ServiceType} (h : removeServiceOf R serverName service w = (.ok (), w')) :
    DisabledAt serverName service.1 service.2 w' := by
  have hstore : w'.store = w.store := (removeServiceOf_keeps _ _).of_run h
  obtain ⟨endpoint', w₁, hread, hcall⟩ := bind_eq_ok.1 h
  intro endpoint hendpoint
  rw [hstore] at hendpoint
  cases (serviceEndpoint_ok (onTables_eq hread).1).symm.trans hendpoint
  exact callRemove_disabled hvalid hcall

/-- The services that are not in the tables are removed where the gateway is. -/
def homeType : Service → ServiceType
  | .mdp => .mdp
  | .me => .me
  | .oms => .oms
  | _ => .gateway

/-- Once all services have been stopped their unit files are gone. -/
private theorem stopServices_disabled (hvalid : isServerNameValid serverName = true)
    (h : stopServices R serverName w = (.ok (), w')) (service : Service) :
    DisabledAt serverName service (homeType service) w' := by
  obtain ⟨gateway, w₁, hread, h⟩ := bind_eq_ok.1 h
  obtain ⟨_, w₂, hcore, hsimulation⟩ := bind_eq_ok.1 h
  have hgateway := serviceEndpoint_ok (onTables_eq hread).1
  have hstore₁ : w₁.store = w.store := (onTables_keeps (serviceEndpoint_keeps _ _ _ _)).of_run hread
  have hstore₂ : w₂.store = w₁.store := (Keeps.each (removeServiceOf_keeps _) _).of_run hcore
  have hstore₃ : w'.store = w₂.store := (Keeps.each (callRemove_keeps _ _) _).of_run hsimulation
  have hspared : HostsSpared serverName w₂ w' :=
    (Moves.each HostsSpared.refl HostsSpared.trans fun service _ =>
      callRemove_spares hvalid gateway.ip service).of_run hsimulation
  have hcores : ∀ p ∈ coreServices, DisabledAt serverName p.1 p.2 w₂ := by
    refine forall_of_each (Q := fun p => DisabledAt serverName p.1 p.2) (fun p q w w' hrun hgone => ?_)
      (fun p w w' hrun => removeServiceOf_disabled hvalid hrun) hcore
    have hstore : w'.store = w.store := (removeServiceOf_keeps _ _).of_run hrun
    exact hgone.of_spared hstore ((removeServiceOf_spares hvalid q).of_run hrun)
  have hsimulations : ∀ s ∈ simulationServices, Disabled serverName s gateway.ip w' := by
    refine forall_of_each (Q := fun s => Disabled serverName s gateway.ip) (fun s t w w' hrun hgone => ?_)
      (fun s w w' hrun => callRemove_disabled hvalid hrun) hsimulation
    exact hgone.of_spared ((callRemove_spares hvalid _ t).of_run hrun)
  have hat : ∀ s ∈ simulationServices, DisabledAt serverName s .gateway w' := by
    intro s hs endpoint hendpoint
    rw [hstore₃, hstore₂, hstore₁] at hendpoint
    cases hgateway.symm.trans hendpoint
    exact hsimulations s hs
  cases service with
  | mdp => exact (hcores (.mdp, .mdp) (by decide)).of_spared hstore₃ hspared
  | me => exact (hcores (.me, .me) (by decide)).of_spared hstore₃ hspared
  | oms => exact (hcores (.oms, .oms) (by decide)).of_spared hstore₃ hspared
  | gateway => exact (hcores (.gateway, .gateway) (by decide)).of_spared hstore₃ hspared
  | mm => exact hat .mm (by decide)
  | nt => exact hat .nt (by decide)
  | it => exact hat .it (by decide)
  | oracle => exact hat .oracle (by decide)

end hosts

/-! ### A request that meets no failure -/

structure RemovalEnv.Calm (R : RemovalEnv) : Prop where
  down : ∀ k, R.env.down k = false
  delivery : ∀ k, R.delivery k = .answered
  run : ∀ k call, R.run k call = true

section calm

variable {R} {req : HttpRequest} {serverName : String} {serverId : Int}

private theorem transaction_of_calm {env : Env} {α : Type} {op : Operation} {label : String}
    {f : Nat → Store → Option (α × Store)} {w : World} {a : α} {st : Store} (hdown : ∀ k, env.down k = false)
    (h : f w.calls w.store = some (a, st)) : transaction env op label f w = (.ok a, ⟨st, w.log ++ [op]⟩) := by
  unfold transaction
  rw [hdown, h]
  rfl

private theorem authenticateAdmin_of_calm {env : Env} {username : String} {userId : Int} {w : World}
    (hdown : ∀ k, env.down k = false) (h : w.store.HasId username userId) :
    authenticateAdmin env (some ("Bearer " ++ username)) w =
      (.ok userId, ⟨w.store, w.log ++ [.getUser username]⟩) := by
  have hbearer : "Bearer ".toList.isPrefixOf ("Bearer " ++ username).toList = true := by
    rw [List.isPrefixOf_iff_prefix, String.toList_append]
    exact List.prefix_append _ _
  have hdrop : String.ofList (("Bearer " ++ username).toList.drop "Bearer ".length) = username := by
    have hrest : ("Bearer ".toList ++ username.toList).drop "Bearer ".length = username.toList := List.drop_left
    rw [String.toList_append, hrest, String.ofList_toList]
  have hget : getUser env username w = (.ok (some ⟨userId, username⟩), ⟨w.store, w.log ++ [.getUser username]⟩) :=
    transaction_of_calm hdown (congrArg (fun u => some (u, w.store)) (find?_of_nodup_map w.store.user_name h rfl))
  unfold authenticateAdmin
  dsimp only
  rw [if_pos hbearer, hdrop]
  exact bind_of_ok (attempt_eq.2 hget) _

private theorem identifyServer_of_calm {env : Env} {w : World} (hdown : ∀ k, env.down k = false)
    (h : Authorised req serverName serverId w) : ∃ w', identifyServer env req w = (.ok serverName, w') := by
  obtain ⟨username, userId, hbearer, hid, hnonneg, hadmin⟩ := h.user
  obtain ⟨srv, hsrv, -, hadmin'⟩ := Store.findServer_of_row h.row hadmin (List.mem_map_of_mem hid)
  have hauth := authenticateAdmin_of_calm hdown hid
  rw [← hbearer] at hauth
  have hfound : getServer env serverName ⟨w.store, w.log ++ [.getUser username]⟩ =
      (.ok (some srv), ⟨w.store, w.log ++ [.getUser username] ++ [.getServer serverName]⟩) :=
    transaction_of_calm hdown (congrArg (fun srv => some (srv, w.store)) hsrv)
  refine ⟨⟨w.store, w.log ++ [.getUser username] ++ [.getServer serverName]⟩,
    bind_eq_ok.2 ⟨userId, _, hauth, ?_⟩⟩
  rw [if_neg (not_lt.2 hnonneg), h.name]
  refine bind_eq_ok.2 ⟨serverName, _, rfl, bind_eq_ok.2 ⟨.ok (some srv), _, attempt_eq.2 hfound, ?_⟩⟩
  dsimp only
  rw [if_neg (not_not.2 hadmin')]
  rfl

private theorem serviceEndpoint_of_calm {env : Env} {service : ServiceType} {endpoint : ServiceEndpoint}
    {w : RemovalWorld} (hdown : ∀ k, env.down k = false) (serviceType : String)
    (h : w.store.getServiceEndpoint serverName service = some endpoint) :
    ∃ w', onTables (serviceEndpoint env serverName serviceType service) w = (.ok endpoint, w') ∧
      w'.store = w.store := by
  have hread : getServiceEndpoint env serverName service w.tables =
      (.ok (some endpoint), ⟨w.store, w.tables.log ++ [.getServiceEndpoint serverName service]⟩) :=
    transaction_of_calm hdown (congrArg (fun e => some (e, w.store)) h)
  have hok : serviceEndpoint env serverName serviceType service w.tables =
      (.ok endpoint, ⟨w.store, w.tables.log ++ [.getServiceEndpoint serverName service]⟩) :=
    bind_eq_ok.2 ⟨some endpoint, _, hread, rfl⟩
  refine ⟨{ w with tables := ⟨w.store, w.tables.log ++ [.getServiceEndpoint serverName service]⟩ }, ?_, rfl⟩
  unfold onTables
  rw [hok]

private theorem callRemove_of_calm (hcalm : R.Calm) (hvalid : isServerNameValid serverName = true) (ip : String)
    (service : Service) (w : RemovalWorld) :
    ∃ w', callRemove R ip serverName service w = (.ok (), w') ∧ w'.store = w.store := by
  obtain ⟨removed, host, hdone⟩ : ∃ removed host, postRemoveServer R.alphabet (R.run w.tables.calls) service.name
      serverName (w.hosts ip) = (.ok removed, host) :=
    postRemoveServer_of_run hvalid (hcalm.run w.tables.calls) service (w.hosts ip)
  have hok : (callRemove R ip serverName service w).1 = .ok () := by
    unfold callRemove
    dsimp only
    rw [hcalm.delivery, hdone]
  exact ⟨_, Prod.ext hok rfl, callRemove_keeps ip serverName service w⟩

/-- Each service has an address. -/
def Located (serverName : String) (st : Store) : Prop :=
  ∀ service, ∃ endpoint, st.getServiceEndpoint serverName (homeType service) = some endpoint

private theorem stopServices_of_calm (hcalm : R.Calm) (hvalid : isServerNameValid serverName = true)
    {w : RemovalWorld} (hlocated : Located serverName w.store) :
    ∃ w', stopServices R serverName w = (.ok (), w') ∧ w'.store = w.store := by
  obtain ⟨gateway, hgateway⟩ := hlocated .gateway
  obtain ⟨w₁, hread, hstore₁⟩ := serviceEndpoint_of_calm hcalm.down "gateway" hgateway
  have hcore : ∀ p ∈ coreServices, ∀ w₂ : RemovalWorld, w₂.store = w.store →
      ∃ w₃, removeServiceOf R serverName p w₂ = (.ok (), w₃) ∧ w₃.store = w.store := by
    intro p hp w₂ hw₂
    have hhome : p.2 = homeType p.1 := (show ∀ p ∈ coreServices, p.2 = homeType p.1 by decide) p hp
    obtain ⟨endpoint, hendpoint⟩ := hlocated p.1
    rw [← hhome, ← hw₂] at hendpoint
    obtain ⟨w₃, hread₃, hw₃⟩ := serviceEndpoint_of_calm hcalm.down p.1.name hendpoint
    obtain ⟨w₄, hcall, hw₄⟩ := callRemove_of_calm hcalm hvalid endpoint.ip p.1 w₃
    exact ⟨w₄, bind_eq_ok.2 ⟨endpoint, w₃, hread₃, hcall⟩, hw₄.trans (hw₃.trans hw₂)⟩
  have hsimulation : ∀ service ∈ simulationServices, ∀ w₂ : RemovalWorld, w₂.store = w.store →
      ∃ w₃, callRemove R gateway.ip serverName service w₂ = (.ok (), w₃) ∧ w₃.store = w.store := by
    intro service _ w₂ hw₂
    obtain ⟨w₃, hcall, hw₃⟩ := callRemove_of_calm hcalm hvalid gateway.ip service w₂
    exact ⟨w₃, hcall, hw₃.trans hw₂⟩
  obtain ⟨w₂, hrun, hstore₂⟩ := exists_of_each hcore hstore₁
  obtain ⟨w₃, hrun', hstore₃⟩ := exists_of_each hsimulation hstore₂
  exact ⟨w₃, bind_eq_ok.2 ⟨gateway, w₁, hread, bind_eq_ok.2 ⟨(), w₂, hrun, hrun'⟩⟩, hstore₃⟩

private theorem forgetServer_of_calm (hdown : ∀ k, R.env.down k = false) {w : RemovalWorld}
    (hrow : ⟨serverId, serverName⟩ ∈ w.store.db.servers) : ∃ res w', forgetServer R serverName w = (.ok res, w') := by
  cases hdrop : attempt (dropQuestTables R.env serverName) w with
  | mk r w₁ =>
    have hstore : w₁.store = w.store := congrArg Prod.fst ((dropQuestTables_keeps _ _).attempt.of_run hdrop)
    cases r with
    | error f => cases hdrop
    | ok dropped =>
      obtain ⟨st', hst', -⟩ := Store.deleteServer_eq_some hrow
      rw [← hstore] at hst'
      have hdelete : deleteServer R.env serverName w₁.tables =
          (.ok true, ⟨st', w₁.tables.log ++ [.deleteServer serverName]⟩) := transaction_of_calm hdown hst'
      have hok : (onTables (deleteServer R.env serverName) w₁).1 = .ok true := congrArg Prod.fst hdelete
      exact ⟨_, _, bind_eq_ok.2 ⟨dropped, w₁, hdrop, bind_eq_ok.2 ⟨true, _, Prod.ext hok rfl, rfl⟩⟩⟩

/-- A request of the admin that meets no failure succeeds. -/
private theorem handleRemoveServer_of_calm (hcalm : R.Calm) {w : RemovalWorld}
    (hauth : Authorised req serverName serverId w.tables) (hvalid : isServerNameValid serverName = true)
    (hlocated : Located serverName w.store) : ∃ res w', handleRemoveServer R req w = (.ok res, w') := by
  obtain ⟨w₁, hidentify⟩ := identifyServer_of_calm hcalm.down hauth
  have hstore₁ : w₁.store = w.store := (identifyServer_keeps _ _).of_run hidentify
  have hok : onTables (identifyServer R.env req) w = (.ok serverName, { w with tables := w₁ }) := by
    unfold onTables
    rw [hidentify]
  have hlocated₁ : Located serverName { w with tables := w₁ }.store := by
    show Located serverName w₁.store
    rwa [hstore₁]
  obtain ⟨w₂, hstop, hstore₂⟩ := stopServices_of_calm hcalm hvalid hlocated₁
  have hrow : ⟨serverId, serverName⟩ ∈ w₂.store.db.servers := by
    rw [hstore₂]
    show _ ∈ w₁.store.db.servers
    rw [hstore₁]
    exact hauth.row
  obtain ⟨res, w₃, hforget⟩ := forgetServer_of_calm hcalm.down hrow
  exact ⟨res, w₃, bind_eq_ok.2 ⟨serverName, _, hok, bind_eq_ok.2 ⟨(), w₂, hstop, hforget⟩⟩⟩

end calm

/-! ### Trying again -/

/-- A request that fails. -/
def failedRemoval (req : HttpRequest) (w : RemovalWorld) (R : RemovalEnv) : Option RemovalWorld :=
  match handleRemoveServer R req w with
  | (.error _, w') => some w'
  | (.ok _, _) => none

section retry

variable {R} {Rs : List RemovalEnv} {req : HttpRequest} {serverName : String} {serverId : Int} {w w' : RemovalWorld}

private theorem failedRemoval_eq_some (h : failedRemoval req w R = some w') :
    ∃ f, handleRemoveServer R req w = (.error f, w') := by
  unfold failedRemoval at h
  split at h
  · rename_i f w₁ hrun
    cases h
    exact ⟨f, hrun⟩
  · cases h

/-- Failed requests leave the rows and the instances of the other servers, and where no deletion of a directory fails
each directory keeps its unit file. -/
private theorem failed_keeps (hname : requestedName req.body = .ok serverName)
    (hvalid : isServerNameValid serverName = true) (h : exec (failedRemoval req) w Rs = some w') :
    w'.store = w.store ∧ HostsSpared serverName w w' ∧ ((∀ R ∈ Rs, R.Clears) → HostsStayTidy w w') := by
  induction Rs generalizing w with
  | nil =>
    cases h
    exact ⟨rfl, .refl _, fun _ => .refl _⟩
  | cons R Rs ih =>
    obtain ⟨w₁, hfailed, hrest⟩ := exec_cons_eq_some.1 h
    obtain ⟨f, hrun⟩ := failedRemoval_eq_some hfailed
    obtain ⟨hstore, hspared, htidy⟩ := ih hrest
    refine ⟨hstore.trans (handleRemoveServer_error hrun), ?_, fun hclears => ?_⟩
    · exact .trans _ _ _ ((handleRemoveServer_spares hname hvalid).of_run hrun) hspared
    · obtain ⟨hfirst, hclears⟩ := List.forall_mem_cons.1 hclears
      exact .trans _ _ _ ((handleRemoveServer_stayTidy hname hvalid hfirst).of_run hrun) (htidy hclears)

private theorem Authorised.of_store {t t' : World} (h : Authorised req serverName serverId t)
    (hstore : t'.store = t.store) : Authorised req serverName serverId t' :=
  ⟨h.name, hstore ▸ h.user, hstore ▸ h.row⟩

/-- An instance of another server is where it was. -/
theorem HostsSpared.mem_iff (h : HostsSpared serverName w w') (ip : String) {x : Instance}
    (hx : isServerNameValid x.server = true) (hne : x.server ≠ serverName) :
    (unitFile x.name ∈ (w'.hosts ip).units ↔ unitFile x.name ∈ (w.hosts ip).units) ∧
      (x.name ∈ (w'.hosts ip).dirs ↔ x.name ∈ (w.hosts ip).dirs) := by
  have hother : ¬ OnlyOf serverName (unitFile x.name) :=
    fun honly => hne (honly x (dash_notMem_of_isServerNameValid hx) rfl)
  exact ⟨⟨(h ip).units _, fun hmem => (h ip).kept _ hmem hother⟩,
    ⟨(h ip).dirs _, fun hmem => (h ip).keptDirs _ hmem hother⟩⟩

/-- However often the removal of a server has failed, and wherever, the next request that meets no failure completes
it: the rows of the server are gone and no others, the unit files of its services are gone from their hosts, and the
instances of the other servers are where they were.  The install directories are gone too, if each had its unit file
to begin with and no deletion of a directory has failed. -/
theorem removal_retry (hauth : Authorised req serverName serverId w.tables)
    (hvalid : isServerNameValid serverName = true) (hlocated : Located serverName w.store)
    (hfailed : exec (failedRemoval req) w Rs = some w') (hcalm : R.Calm) :
    ∃ res w'', handleRemoveServer R req w' = (.ok res, w'') ∧ Store.Deleted serverId w.store w''.store ∧
      (∀ service endpoint, w.store.getServiceEndpoint serverName (homeType service) = some endpoint →
        Disabled serverName service endpoint.ip w'' ∧
          ((∀ R ∈ Rs, R.Clears) → (w.hosts endpoint.ip).Tidy → Gone serverName service endpoint.ip w'')) ∧
      ∀ ip (x : Instance), isServerNameValid x.server = true → x.server ≠ serverName →
        (unitFile x.name ∈ (w''.hosts ip).units ↔ unitFile x.name ∈ (w.hosts ip).units) ∧
        (x.name ∈ (w''.hosts ip).dirs ↔ x.name ∈ (w.hosts ip).dirs) := by
  obtain ⟨hstore, hspared, htidy⟩ := failed_keeps hauth.name hvalid hfailed
  have hauth' : Authorised req serverName serverId w'.tables := hauth.of_store hstore
  have hlocated' : Located serverName w'.store := by rwa [hstore]
  obtain ⟨res, w'', hrun⟩ := handleRemoveServer_of_calm hcalm hauth' hvalid hlocated'
  obtain ⟨id, hauthId, hdeleted, w₁, w₂, hw₁, -, hstop, hw₂, hhosts⟩ := handleRemoveServer_ok hrun
  obtain ⟨rfl, rfl⟩ := hauth'.unique hauthId
  have hspared' : HostsSpared res.serverName w' w'' := (handleRemoveServer_spares hauth.name hvalid).of_run hrun
  have htidy' : HostsStayTidy w' w'' :=
    (handleRemoveServer_stayTidy hauth.name hvalid fun k n => hcalm.run k (.rmtree n)).of_run hrun
  refine ⟨res, w'', hrun, hstore ▸ hdeleted, fun service endpoint hendpoint => ?_, fun ip x hx hne => ?_⟩
  · rw [← hstore, ← hw₂] at hendpoint
    have hdisabled : Disabled res.serverName service endpoint.ip w'' :=
      (stopServices_disabled hvalid hstop service endpoint hendpoint).of_spared (.of_eq _ _ hhosts)
    exact ⟨hdisabled, fun hclears hat => hdisabled.gone (htidy' _ (htidy hclears _ hat))⟩
  · obtain ⟨hunit, hdir⟩ := hspared.mem_iff ip hx hne
    obtain ⟨hunit', hdir'⟩ := hspared'.mem_iff ip hx hne
    exact ⟨hunit'.trans hunit, hdir'.trans hdir⟩

end retry

/-! ### Sample requests -/

/-- Nothing fails but what is said of the calls of the deployment servers and of their hosts. -/
def sampleRemovalEnv (delivery : Nat → Delivery) (run : Nat → HostCall → Bool) : RemovalEnv :=
  ⟨calmEnv fun _ _ => none, asciiAlphabet, delivery, run, fun _ => ""⟩

/-- The server that `ann` has created, and a market maker of another one. -/
def sampleRemovalWorld : RemovalWorld where
  tables := (sampleRun (fun _ _ => none) (sampleRequest ["GME"] ["ann"] 1)).2
  questTables := ["orders_alpha", "trades_alpha"]
  hosts _ := ⟨["mdp-alpha.service", "mm-grp1-alpha.service", "mm-grp1-beta.service"],
    ["mdp-alpha", "mm-grp1-alpha", "mm-grp1-beta"]⟩

def removeRequest : HttpRequest := ⟨some "Bearer ann", some (.object [("server_name", .string "alpha")])⟩

private theorem sampleRemovalWorld_authorised : Authorised removeRequest "alpha" 1 sampleRemovalWorld.tables where
  name := rfl
  user := ⟨"ann", 1, rfl, by unfold Store.HasId; decide +kernel, by decide, by decide +kernel⟩
  row := by decide +kernel

private theorem sampleRemovalEnv_calm : (sampleRemovalEnv (fun _ => .answered) fun _ _ => true).Calm :=
  ⟨fun _ => rfl, fun _ => rfl, fun _ _ => rfl⟩

private theorem sampleRemovalWorld_located : Located "alpha" sampleRemovalWorld.store := by
  intro service
  have hfound : (sampleRemovalWorld.store.getServiceEndpoint "alpha" (homeType service)).isSome = true := by
    cases service <;> decide +kernel
  exact Option.isSome_iff_exists.1 hfound

theorem removal_all_or_nothing_sample : ∃ res w',
    handleRemoveServer (sampleRemovalEnv (fun _ => .answered) fun _ _ => true) removeRequest sampleRemovalWorld =
      (.ok res, w') ∧ Store.Deleted 1 sampleRemovalWorld.store w'.store := by
  obtain ⟨res, w', hrun⟩ := handleRemoveServer_of_calm sampleRemovalEnv_calm sampleRemovalWorld_authorised (by decide)
    sampleRemovalWorld_located
  obtain ⟨serverId, hauth, hdeleted⟩ := (removal_all_or_nothing hrun).2 res rfl
  obtain ⟨-, rfl⟩ := sampleRemovalWorld_authorised.unique hauth
  exact ⟨res, w', hrun, hdeleted⟩

/-- The answer to the first removal is lost; the second request takes away the market makers with their directory and
leaves those of the other server. -/
theorem removal_retry_sample : ∃ w' res w'',
    exec (failedRemoval removeRequest) sampleRemovalWorld
      [sampleRemovalEnv (fun _ => .unread "timed out") fun _ _ => true] = some w' ∧
    handleRemoveServer (sampleRemovalEnv (fun _ => .answered) fun _ _ => true) removeRequest w' = (.ok res, w'') ∧
    Store.Deleted 1 sampleRemovalWorld.store w''.store ∧ "mm-grp1-alpha.service" ∉ (w''.hosts "127.0.0.1").units ∧
    "mm-grp1-alpha" ∉ (w''.hosts "127.0.0.1").dirs ∧ "mm-grp1-beta.service" ∈ (w''.hosts "127.0.0.1").units := by
  have hfailed : (exec (failedRemoval removeRequest) sampleRemovalWorld
      [sampleRemovalEnv (fun _ => .unread "timed out") fun _ _ => true]).isSome = true := by
    decide +kernel
  obtain ⟨w', hw'⟩ := Option.isSome_iff_exists.1 hfailed
  have hgateway : sampleRemovalWorld.store.getServiceEndpoint "alpha" (homeType .mm) =
      some ⟨"127.0.0.1", 10004⟩ := by decide +kernel
  have halpha : unitFile (Instance.name ⟨.mm, some "grp1", "alpha"⟩) = "mm-grp1-alpha.service" := by decide
  have hbeta : unitFile (Instance.name ⟨.mm, some "grp1", "beta"⟩) = "mm-grp1-beta.service" := by decide
  obtain ⟨res, w'', hrun, hdeleted, hgone, hothers⟩ := removal_retry sampleRemovalWorld_authorised (by decide)
    sampleRemovalWorld_located hw' sampleRemovalEnv_calm
  have htidy : (sampleRemovalWorld.hosts "127.0.0.1").Tidy :=
    (show ∀ n ∈ ["mdp-alpha", "mm-grp1-alpha", "mm-grp1-beta"],
      unitFile n ∈ (sampleRemovalWorld.hosts "").units by decide)
  have hmm := (hgone .mm _ hgateway).2 (List.forall_mem_singleton.2 fun _ _ => rfl) htidy
    ⟨.mm, some "grp1", "alpha"⟩ (by decide) rfl rfl
  have hother := (hothers "127.0.0.1" ⟨.mm, some "grp1", "beta"⟩ (by decide) (by decide)).1
  rw [halpha] at hmm
  rw [hbeta] at hother
  exact ⟨w', res, w'', hw', hrun, hdeleted, hmm.1, hmm.2, hother.2 (by decide)⟩

/-- A directory whose deletion has failed is still there when the server is removed. -/
example : ((exec (failedRemoval removeRequest) sampleRemovalWorld
    [sampleRemovalEnv (fun _ => .answered) fun _ call => call ≠ .rmtree "mdp-alpha"]).map fun w' =>
      ((handleRemoveServer (sampleRemovalEnv (fun _ => .answered) fun _ _ => true) removeRequest w').1.isOk,
        ((handleRemoveServer (sampleRemovalEnv (fun _ => .answered) fun _ _ => true) removeRequest w').2.hosts
          "127.0.0.1").dirs)) = some (true, ["mdp-alpha", "mm-grp1-beta"]) := by
  decide +kernel

end Elsa.Backend
