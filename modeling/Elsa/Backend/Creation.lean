import Mathlib.Algebra.Order.Ring.Rat
import Elsa.Base.FixedWidth
import Elsa.Backend.ServerConfig
import Elsa.Backend.ServerStore

/-!
# The creation of a server

`RequestHandler::handle_create_server` makes many calls: it looks up and creates users, reads machines and services,
inserts the server in one transaction, inserts each initial balance in a transaction of its own, and starts the
services on the machine. Whichever call fails ends the request with an error.  What the calls before it have written
stays.

The calls are numbered.  Which of them fail for a reason from outside, what the sequences of the tables give, what
the deployment server answers and in which order the unordered containers are read is given by an `Env`.
-/

namespace Elsa.Backend

open Base Effect

/-- A call of the deployment server. -/
structure Deployment where
  serviceName : String
  serverName : String
  params : JsonObject

/-- What a request meets.  A call is known by its number; `scaleInventory` is `std::llround` of a double times
`decimal_to_int_multiplier`. -/
structure Env where
  down : Nat → Bool
  what : Nat → String
  newUserId : Nat → Int
  newServerId : Nat → Int
  deployError : Nat → Deployment → Option String
  scaleInventory : ℚ → Int
  machineOrder : List MachineRow → List MachineRow
  usdOrder : List (Int × Int) → List (Int × Int)
  userOrder : List Int → List Int
  symbolOrder : List String → List String
  machineOrder_perm : ∀ l, (machineOrder l).Perm l
  usdOrder_perm : ∀ l, (usdOrder l).Perm l
  userOrder_perm : ∀ l, (userOrder l).Perm l
  symbolOrder_perm : ∀ l, (symbolOrder l).Perm l

/-- The calls of the handlers. -/
inductive Operation
  | getUser (username : String)
  | createUser (username : String)
  | queryMachines
  | queryServices (machineName : String)
  | createServerWithServices (new : Store.ServerInsert)
  | insertBalance (row : BalanceRow)
  | upsertInitBotPortfolioBalance (row : PortfolioRow)
  | createQuestTables (serverName : String)
  | deployService (deployment : Deployment)
  | getServer (serverName : String)
  | configureServer (serverName : String)
  | getServiceEndpoint (serverName : String) (service : ServiceType)
  | callRemove (serverName : String)
  | dropQuestTables (serverName : String)
  | deleteServer (serverName : String)

/-- The tables, and the calls that were made. -/
structure World where
  store : Store
  log : List Operation

/-- The number of the next call. -/
def World.calls (w : World) : Nat := w.log.length

/-- The calls that `handle_create_server` makes when the server is in the tables. -/
def Operation.Late : Operation → Prop
  | .insertBalance _ | .upsertInitBotPortfolioBalance _ | .deployService _ => True
  | _ => False

instance : DecidablePred Operation.Late := fun op => by
  cases op <;> first | exact .isTrue trivial | exact .isFalse id

/-- The call fails for a reason from outside. -/
def Env.Fails (env : Env) (call : Nat) : Operation → Prop
  | .deployService deployment => env.deployError call deployment ≠ none
  | _ => env.down call = true

/-- A response with an error. -/
inductive Failure
  | authError (text : String)
  | error (text : String)
deriving DecidableEq, Repr

structure HttpRequest where
  authorization : Option String
  body : Option Json

structure CreateResponse where
  warning : Option String
  serverId : Int
  serverName : String
  adminId : Int
  description : String
  initialUsd : Int
  activeSymbols : List String
  allowlist : List String
deriving DecidableEq, Repr

abbrev Handler := Effect World Failure

variable (env : Env)

/-! ### Calls -/

/-- A call of the database client: it commits, or it fails and changes nothing. -/
def transaction {α : Type} (op : Operation) (label : String) (f : Nat → Store → Option (α × Store)) : Handler α :=
  fun w =>
    match if env.down w.calls then none else f w.calls w.store with
    | some (a, store) => (.ok a, ⟨store, w.log ++ [op]⟩)
    | none => (.error (.error (label ++ env.what w.calls)), ⟨w.store, w.log ++ [op]⟩)

def getUser (username : String) : Handler (Option UserRow) :=
  transaction env (.getUser username) "Error getting user: " fun _ st => some (st.getUser username, st)

def createUser (username : String) : Handler Int :=
  transaction env (.createUser username) "Error creating user: " fun k st =>
    (st.createUser (env.newUserId k) username).map fun st => (env.newUserId k, st)

def queryMachines : Handler (List MachineRow) :=
  transaction env .queryMachines "Error getting active servers: " fun _ st =>
    some (env.machineOrder st.db.machines, st)

def queryServices (machineName : String) : Handler (List ServiceRow) :=
  transaction env (.queryServices machineName) ("Error getting services of machine " ++ machineName ++ ": ")
    fun _ st =>
    (st.db.queryServices machineName).map fun rows => (rows, st)

def createServerWithServices (new : Store.ServerInsert) : Handler Int :=
  transaction env (.createServerWithServices new) "Error creating server: " fun k st =>
    (st.createServerWithServices (env.newServerId k) new).map fun st => (env.newServerId k, st)

def insertBalance (row : BalanceRow) : Handler Unit :=
  transaction env (.insertBalance row) "Error inserting balance: " fun _ st =>
    (st.insertBalance row).map fun st => ((), st)

def upsertInitBotPortfolioBalance (row : PortfolioRow) : Handler Unit :=
  transaction env (.upsertInitBotPortfolioBalance row) "Error upserting initial bot portfolio balance: " fun _ st =>
    (st.upsertInitBotPortfolioBalance row).map fun st => ((), st)

/-- `create_quest_tables` writes to another database. -/
def createQuestTables (serverName : String) : Handler Unit :=
  transaction env (.createQuestTables serverName)
    ("Error creating orders and trades table for server " ++ serverName ++ ": ") fun _ st => some ((), st)

def deployService (deployment : Deployment) : Handler Unit := fun w =>
  match env.deployError w.calls deployment with
  | none => (.ok (), ⟨w.store, w.log ++ [.deployService deployment]⟩)
  | some text => (.error (.error text), ⟨w.store, w.log ++ [.deployService deployment]⟩)

/-! ### Before the server is created -/

/-- The user of the request, or -1. -/
def authenticateAdmin (authorization : Option String) : Handler Int :=
  match authorization with
  | none => return -1
  | some value =>
    if "Bearer ".toList.isPrefixOf value.toList then do
      let result ← attempt (getUser env (String.ofList (value.toList.drop "Bearer ".length)))
      match result with
      | .ok (some user) => return user.userId
      | _ => return -1
    else return -1

/-- A group of bots and their users. -/
structure BotGroup where
  config : BotGroupConfig
  usernames : List String
  userIds : List Int

structure BotConfig where
  serviceName : String
  groups : List BotGroup

def botUser (username : String) : Handler Int := do
  match ← getUser env username with
  | some user => return user.userId
  | none => createUser env username

/-- The groups of one kind of bots; their users are numbered through, from `runningIndex` on. -/
def botGroups (serviceName : String) : List BotGroupConfig → Nat → Handler (List BotGroup)
  | [], _ => return []
  | config :: configs, runningIndex => do
    let usernames := (List.range config.count.toNat).map fun i => serviceName ++ toString (runningIndex + i)
    let userIds ← collect (botUser env) usernames
    let groups ← botGroups serviceName configs (runningIndex + config.count.toNat)
    return ⟨config, usernames, userIds⟩ :: groups

def botConfig (config : BotCreateConfig) : Handler BotConfig := do
  let groups ← botGroups env config.serviceName config.groups 1
  return ⟨config.serviceName, groups⟩

/-- The groups of all bots. -/
def allGroups (bots : List BotConfig) : List BotGroup := bots.flatMap BotConfig.groups

def botUserIds (bots : List BotConfig) : List Int := (allGroups bots).flatMap BotGroup.userIds

/-- The allowlist of the request, and the bots that it does not name. -/
def allAllowlistNames (allowlistNames : List String) (bots : List BotConfig) : List String :=
  ((allGroups bots).flatMap BotGroup.usernames).foldl
    (fun names username => if username ∈ names then names else names ++ [username]) allowlistNames

def resolveUserId (username : String) : Handler Int := do
  match ← getUser env username with
  | some user => return user.userId
  | none => fail (.error ("User not found: " ++ username))

def resolveUserIds (usernames : List String) : Handler (List Int) := collect (resolveUserId env) usernames

/-- What is inserted for a server. -/
structure ServerPlan where
  config : ServerConfig
  callerId : Int
  bots : List BotConfig
  allowlistNames : List String
  allowlistUserIds : List Int
  machine : MachineRow
  services : List ServiceInsertRow

/-- The row, the allowlist and the services of the plan. -/
def ServerPlan.insert (plan : ServerPlan) : Store.ServerInsert where
  serverName := plan.config.serverName
  adminId := plan.callerId
  description := plan.config.description
  symbols := plan.config.symbols
  allowlistUserIds := plan.allowlistUserIds
  services := plan.services

/-- A server that has been created. -/
structure NewServer extends ServerPlan where
  serverId : Int

/-- The request up to the transaction that creates the server. -/
def prepareServer (req : HttpRequest) : Handler ServerPlan := do
  let callerId ← authenticateAdmin env req.authorization
  if callerId < 0 then
    fail (.authError "Unauthorized: valid Authorization header required")
  else do
    let config ← lift ((parseServerConfig req.body).mapError .error)
    let bots ← collect (botConfig env) config.botConfigs
    let allowlistNames := allAllowlistNames config.allowlistNames bots
    let allowlistUserIds ← resolveUserIds env allowlistNames
    match ← queryMachines env with
    | [] => fail (.error "No available machines found")
    | machine :: _ => do
      let used ← queryServices env machine.machineName
      let services := newServices machine.machineId (used.map ServiceRow.port)
      return { config, callerId, bots, allowlistNames, allowlistUserIds, machine, services }

/-- The request with the transaction that creates the server. -/
def openServer (req : HttpRequest) : Handler NewServer := do
  let plan ← prepareServer env req
  let serverId ← createServerWithServices env plan.insert
  return ⟨plan, serverId⟩

/-! ### After the server is created -/

variable (A : Arith)

/-- `core::constants::decimal_to_int_multiplier`. -/
def balanceMultiplier : Int := 100

def usdMultiplier : Int := A.int64 (balanceMultiplier * balanceMultiplier)

def kDefaultInitialTickerPriceUsd : Int := 100

/-- `map[key] = value`. -/
def assign (m : List (Int × Int)) (key value : Int) : List (Int × Int) := (key, value) :: m.filter fun p => p.1 ≠ key

/-- The dollars that each user starts with. -/
def initialUsdByUserId (s : NewServer) : List (Int × Int) :=
  let users := s.allowlistUserIds.foldl (fun m userId => assign m userId s.config.initialUsd) []
  let users := assign users s.callerId s.config.initialUsd
  (allGroups s.bots).foldl (fun m group => group.userIds.foldl
    (fun m userId => assign m userId group.config.initialUsd) m) users

def insertUsd (s : NewServer) (entry : Int × Int) : Handler Unit :=
  insertBalance env ⟨entry.1, s.serverId, "USD", A.int64 (entry.2 * usdMultiplier A)⟩

/-- The users that are not bots, each once. -/
def nonBotUserIds (s : NewServer) : List Int :=
  (s.callerId :: s.allowlistUserIds).eraseDups.filter fun userId => userId ∉ botUserIds s.bots

def nonUsdActiveSymbols (s : NewServer) : List String := (s.config.symbols.filter (· ≠ "USD")).eraseDups

def insertZeros (s : NewServer) (userId : Int) : Handler Unit :=
  each (fun symbol => insertBalance env ⟨userId, s.serverId, symbol, 0⟩) (env.symbolOrder (nonUsdActiveSymbols s))

def inventoryScaled (group : BotGroup) (symbol : String) : Int :=
  env.scaleInventory ((group.config.inventoryBySymbol.lookup symbol).getD group.config.initialInventory)

/-- The shares of a bot, symbol by symbol as the request lists them, and its first portfolio. -/
def insertBot (s : NewServer) (group : BotGroup) (userId : Int) : Handler Unit := do
  let symbols := s.config.symbols.filter (· ≠ "USD")
  each (fun symbol => insertBalance env ⟨userId, s.serverId, symbol, inventoryScaled env group symbol⟩) symbols
  upsertInitBotPortfolioBalance env ⟨userId, s.serverId, symbols.foldl (fun total symbol => A.int64 (total +
    A.int64 (A.int64 (inventoryScaled env group symbol * kDefaultInitialTickerPriceUsd) * balanceMultiplier)))
    (A.int64 (group.config.initialUsd * usdMultiplier A))⟩

/-- The balances of all users. -/
def insertBalances (s : NewServer) : Handler Unit := do
  each (insertUsd env A s) (env.usdOrder (initialUsdByUserId s))
  each (insertZeros env s) (env.userOrder (nonBotUserIds s))
  each (fun group => each (insertBot env A s group) group.userIds) (allGroups s.bots)

def joinCsv (values : List String) : String := ",".intercalate values

/-- The port of a service. -/
def NewServer.port (s : NewServer) (serviceType : ServiceType) : Json :=
  .int64 (((s.services.find? fun r => r.serviceType = serviceType).map ServiceInsertRow.port).getD 0)

/-- The five services, in the order in which they are started. -/
def serviceDeployments (s : NewServer) : List Deployment :=
  let ip : Json := .string s.machine.ip
  let activeSymbols : Json := .string (joinCsv s.config.symbols)
  let oracle := s.config.oracleCfg
  [⟨"mdp", s.config.serverName, [("host", ip), ("ws_port", s.port .mdp), ("active_symbols", activeSymbols)]⟩,
    ⟨"me", s.config.serverName,
      [("matching_engine_host", ip), ("matching_engine_port", s.port .me), ("active_symbols", activeSymbols)]⟩,
    ⟨"oms", s.config.serverName,
      [("order_manager_host", ip), ("order_manager_port", s.port .oms), ("active_symbols", activeSymbols),
        ("downstream_matching_engine_host", ip), ("downstream_matching_engine_port", s.port .me)]⟩,
    ⟨"gateway", s.config.serverName,
      [("downstream_order_manager_host", ip), ("downstream_order_manager_port", s.port .oms),
        ("fix_server_port", s.port .gateway), ("whitelist", .string (joinCsv s.allowlistNames))]⟩,
    ⟨"oracle", s.config.serverName,
      [("active_symbols", activeSymbols), ("oracle_ws_port", s.port .oracle), ("mu", .double oracle.mu),
        ("sigma", .double oracle.sigma), ("jump_intensity", .double oracle.jumpIntensity),
        ("jump_mean", .double oracle.jumpMean), ("jump_std", .double oracle.jumpStd),
        ("update_interval_ms", .int64 oracle.updateIntervalMs)]⟩]

/-- The fields that a group of bots is started with. -/
def botParams (s : NewServer) (serviceName : String) (group : BotGroup) : JsonObject :=
  let params :=
    ((((group.config.deployParams.set "gateway_host" (.string s.machine.ip)).set "gateway_port"
      (s.port .gateway)).set "active_symbols" (.string (joinCsv s.config.symbols))).set "group_tag"
      (.string group.config.groupTag))
  let params := if serviceName = "mm" ∨ serviceName = "nt" ∨ serviceName = "it" then
      (params.set "mdp_ws_host" (.string s.machine.ip)).set "mdp_ws_port" (s.port .mdp)
    else params
  let params := if serviceName = "it" then
      (params.set "oracle_ws_host" (.string s.machine.ip)).set "oracle_ws_port" (s.port .oracle)
    else params
  params.set "sender_comp_ids" (.array (group.usernames.map .string))

def deployGroup (s : NewServer) (serviceName : String) (group : BotGroup) : Handler Unit :=
  if group.config.count ≤ 0 then return ()
  else deployService env ⟨serviceName, s.config.serverName, botParams s serviceName group⟩

/-- The services and then the bots are started. -/
def deployAll (s : NewServer) : Handler Unit := do
  each (deployService env) (serviceDeployments s)
  each (fun bot => each (deployGroup env s bot.serviceName) bot.groups) s.bots

/-- The request after the transaction that creates the server. -/
def fillServer (s : NewServer) : Handler CreateResponse := do
  insertBalances env A s
  deployAll env s
  let tables ← attempt (createQuestTables env s.config.serverName)
  let warning := match tables with
    | .ok _ => none
    | .error (.error text) => some text
    | .error (.authError text) => some text
  return { warning, serverId := s.serverId, serverName := s.config.serverName, adminId := s.callerId
           description := s.config.description, initialUsd := s.config.initialUsd, activeSymbols := s.config.symbols
           allowlist := s.allowlistNames }

def handleCreateServer (req : HttpRequest) : Handler CreateResponse := do
  let s ← openServer env req
  fillServer env A s

end Elsa.Backend
