import Mathlib.Data.Rat.Defs

/-!
# The body of a request for a new server

`handle_create_server` reads the body of a request before it touches the database: the name, the symbols and the
allowlist, groups of bots with their parameters, and the parameters of the oracle.  The fields are read one after
the other, and the first one that is not as it should be ends the request with a text that names it.

A number of the body is the number it stands for: doubles are not rounded.
-/

namespace Elsa.Backend

/-- `boost::json::value`. -/
inductive Json
  | null
  | bool (b : Bool)
  | int64 (n : Int)
  | uint64 (n : Int)
  | double (x : ℚ)
  | string (s : String)
  | array (values : List Json)
  | object (fields : List (String × Json))

/-- `boost::json::object`. -/
abbrev JsonObject := List (String × Json)

/-- `object[key] = value`. -/
def JsonObject.set (o : JsonObject) (key : String) (value : Json) : JsonObject :=
  match o with
  | [] => [(key, value)]
  | (k, v) :: o => if k = key then (k, value) :: o else (k, v) :: JsonObject.set o key value

def Json.string? : Json → Option String
  | .string s => some s
  | _ => none

/-- The strings of an array, and nothing where there is no array. -/
def stringsOf : Option Json → List String
  | some (.array values) => values.filterMap Json.string?
  | _ => []

/-- `std::numeric_limits<int>::max()`. -/
def intMax : Int := 2147483647

def kServerNameMaxLength : Nat := 11

def isServerNameValid (serverName : String) : Bool :=
  serverName ≠ "" && serverName.utf8ByteSize ≤ kServerNameMaxLength && serverName.toList.all Char.isAlphanum

/-! ### Numbers -/

def parseIntValue (fieldName : String) (defaultValue : Int) (value : Json) : Except String Int :=
  let inRange (parsed : Int) : Except String Int :=
    if parsed < 0 ∨ intMax < parsed then .error (fieldName ++ " must be between 0 and " ++ toString intMax)
    else .ok parsed
  match value with
  | .null => .ok defaultValue
  | .int64 parsed => inRange parsed
  | .uint64 raw => if intMax < raw then .error (fieldName ++ " must be <= " ++ toString intMax) else inRange raw
  | .double raw => if raw.den = 1 then inRange raw.num else .error (fieldName ++ " must be an integer")
  | _ => .error (fieldName ++ " must be an integer")

def parseNumericValue (fieldName : String) (defaultValue : ℚ) : Json → Except String ℚ
  | .null => .ok defaultValue
  | .double parsed => .ok parsed
  | .int64 parsed => .ok parsed
  | .uint64 parsed => .ok parsed
  | _ => .error (fieldName ++ " must be numeric")

/-- An unsigned integer is not compared with zero. -/
def parseDoubleValue (fieldName : String) (defaultValue : ℚ) : Json → Except String ℚ
  | .null => .ok defaultValue
  | .double parsed => if parsed < 0 then .error (fieldName ++ " must be non-negative") else .ok parsed
  | .int64 parsed => if parsed < 0 then .error (fieldName ++ " must be non-negative") else .ok parsed
  | .uint64 parsed => .ok parsed
  | _ => .error (fieldName ++ " must be numeric")

/-- A field that may be absent. -/
def parseField {α : Type} (o : JsonObject) (key : String) (defaultValue : α) (parse : Json → Except String α) :
    Except String α :=
  match o.lookup key with
  | some value => parse value
  | none => .ok defaultValue

/-! ### Bots -/

structure BotGroupConfig where
  groupTag : String
  count : Int
  initialUsd : Int
  initialInventory : ℚ
  inventoryBySymbol : List (String × ℚ)
  deployParams : JsonObject

structure BotCreateConfig where
  serviceName : String
  groups : List BotGroupConfig

/-- The arguments of `parse_bot_config` for one kind of bots. -/
structure BotType where
  botKey : String
  usernamePrefix : String
  serviceName : String
  countKey : String
  defaultCount : Int
  defaultGroupInitialUsd : Int
  defaultInitialInventory : ℚ
  paramDefaults : List (String × ℚ)

def marketMakers (initialUsd : Int) : BotType :=
  ⟨"mm", "market_maker", "mm", "num_market_makers", 4, initialUsd, 300,
    [("lot_size", 1), ("gamma", 6 / 10), ("k", 8), ("terminal_time", 30)]⟩

def noiseTraders (initialUsd : Int) : BotType :=
  ⟨"nt", "noise_trader", "nt", "num_noise_traders", 0, initialUsd, 20,
    [("lambda_eps", 6 / 10), ("bernoulli", 5 / 10), ("pareto_scale", 5 / 10), ("pareto_shape", 4)]⟩

def informedTraders : BotType :=
  ⟨"it", "informed_trader", "it", "num_informed_traders", 0, 1500000, 150,
    [("epsilon", 12 / 100), ("trade_qty", 5), ("max_inventory", 1200)]⟩

namespace BotType

variable (t : BotType)

/-- The parameters of a group before its fields are read. -/
def defaultParams (groupTag : String) (count : Int) : JsonObject :=
  t.paramDefaults.foldl (fun o p => o.set p.1 (.double p.2))
    [(t.countKey, .int64 count), ("cfg_prefix", .string (t.usernamePrefix ++ "_" ++ groupTag)),
      ("initial_inventory", .double t.defaultInitialInventory)]

def emptyGroup : BotGroupConfig :=
  ⟨"grp1", 0, t.defaultGroupInitialUsd, t.defaultInitialInventory, [], t.defaultParams "grp1" 0⟩

/-- The path of a field of a group. -/
def path (groupIndex : Nat) (field : String) : String := t.botKey ++ ".groups[" ++ toString groupIndex ++ "]" ++ field

/-- The field `inventory_by_symbol`, read over the inventories that all symbols have at first. -/
def parseInventory (symbols : List String) (groupIndex : Nat) (initialInventory : ℚ) (groupObj : JsonObject) :
    Except String (List (String × ℚ)) :=
  let inventory := (symbols.filter (· ≠ "USD")).eraseDups.map fun symbol => (symbol, initialInventory)
  match groupObj.lookup "inventory_by_symbol" with
  | none => .ok inventory
  | some (.object fields) => fields.foldlM (fun inventory (field : String × Json) =>
      if field.1 ∉ symbols then .error (t.path groupIndex ".inventory_by_symbol has unknown symbol: " ++ field.1)
      else do
        let parsed ← parseDoubleValue (t.path groupIndex ".inventory_by_symbol." ++ field.1) initialInventory field.2
        return (field.1, parsed) :: inventory.filter fun p => p.1 ≠ field.1) inventory
  | some _ => .error (t.path groupIndex ".inventory_by_symbol must be an object")

/-- The field `params`. -/
def parseParams (groupIndex : Nat) (groupObj deployParams : JsonObject) : Except String JsonObject :=
  match groupObj.lookup "params" with
  | none => .ok deployParams
  | some (.object paramsObj) => t.paramDefaults.foldlM (fun deployParams (p : String × ℚ) => do
      let parsed ← parseField paramsObj p.1 p.2 (parseDoubleValue (t.path groupIndex ".params." ++ p.1) p.2)
      return deployParams.set p.1 (.double parsed)) deployParams
  | some _ => .error (t.path groupIndex ".params must be an object")

def parseBotGroup (symbols : List String) (groupObj : JsonObject) (groupIndex : Nat) :
    Except String BotGroupConfig := do
  let groupTag := "grp" ++ toString (groupIndex + 1)
  let count ← parseField groupObj "count" t.defaultCount (parseIntValue (t.path groupIndex ".count") t.defaultCount)
  let initialUsd ← parseField groupObj "initial_usd" t.defaultGroupInitialUsd
    (parseIntValue (t.path groupIndex ".initial_usd") t.defaultGroupInitialUsd)
  let initialInventory ← parseField groupObj "initial_inventory" t.defaultInitialInventory
    (parseDoubleValue (t.path groupIndex ".initial_inventory") t.defaultInitialInventory)
  let inventoryBySymbol ← t.parseInventory symbols groupIndex initialInventory groupObj
  let initialInventory := match symbols.find? (· ≠ "USD") with
    | some firstSymbol => (inventoryBySymbol.lookup firstSymbol).getD 0
    | none => initialInventory
  let deployParams :=
    ((t.defaultParams groupTag t.defaultCount).set t.countKey (.int64 count)).set "initial_inventory"
      (.double initialInventory)
  let deployParams ← t.parseParams groupIndex groupObj deployParams
  return { groupTag, count, initialUsd, initialInventory, inventoryBySymbol, deployParams }

/-- The groups of an array from index `groupIndex` on. -/
def parseGroups (symbols : List String) : List Json → Nat → Except String (List BotGroupConfig)
  | [], _ => .ok []
  | .object groupObj :: values, groupIndex => do
    let group ← t.parseBotGroup symbols groupObj groupIndex
    let groups ← parseGroups symbols values (groupIndex + 1)
    return group :: groups
  | _ :: _, groupIndex => .error (t.path groupIndex " must be an object")

/-- The three shapes: no object, an array of groups, a single group. -/
def parseBotConfig (symbols : List String) (botsObj : JsonObject) : Except String BotCreateConfig :=
  match botsObj.lookup t.botKey with
  | some (.object typeObj) =>
    match typeObj.lookup "groups" with
    | some (.array values) => do
      let groups ← t.parseGroups symbols values 0
      return ⟨t.serviceName, if groups.isEmpty then [t.emptyGroup] else groups⟩
    | _ => do
      let group ← t.parseBotGroup symbols typeObj 0
      return ⟨t.serviceName, [group]⟩
  | _ => .ok ⟨t.serviceName, [t.emptyGroup]⟩

end BotType

/-! ### The oracle -/

structure OracleDeployConfig where
  mu : ℚ
  sigma : ℚ
  jumpIntensity : ℚ
  jumpMean : ℚ
  jumpStd : ℚ
  updateIntervalMs : Int

/-- `OracleDeployConfig{}`. -/
def OracleDeployConfig.default : OracleDeployConfig := ⟨0, 3 / 1000, 6 / 100, 0, 1 / 100, 60000⟩

def parseOracle : Option Json → Except String OracleDeployConfig
  | none => .ok .default
  | some (.object oracleObj) => do
    let cfg := OracleDeployConfig.default
    let mu ← parseField oracleObj "mu" cfg.mu (parseNumericValue "oracle.mu" cfg.mu)
    let sigma ← parseField oracleObj "sigma" cfg.sigma (parseDoubleValue "oracle.sigma" cfg.sigma)
    let jumpIntensity ← parseField oracleObj "jump_intensity" cfg.jumpIntensity
      (parseDoubleValue "oracle.jump_intensity" cfg.jumpIntensity)
    let jumpMean ← parseField oracleObj "jump_mean" cfg.jumpMean (parseNumericValue "oracle.jump_mean" cfg.jumpMean)
    let jumpStd ← parseField oracleObj "jump_std" cfg.jumpStd (parseDoubleValue "oracle.jump_std" cfg.jumpStd)
    let updateIntervalMs ← parseField oracleObj "update_interval_ms" cfg.updateIntervalMs fun value => do
      let parsed ← parseIntValue "oracle.update_interval_ms" cfg.updateIntervalMs value
      if parsed ≤ 0 then .error "oracle.update_interval_ms must be positive" else .ok parsed
    return { mu, sigma, jumpIntensity, jumpMean, jumpStd, updateIntervalMs }
  | some _ => .error "oracle must be an object"

/-! ### The body -/

structure ServerConfig where
  serverName : String
  description : String
  initialUsd : Int
  symbols : List String
  allowlistNames : List String
  botConfigs : List BotCreateConfig
  oracleCfg : OracleDeployConfig

def parseServerName (body : JsonObject) : Except String String :=
  match body.lookup "server_name" with
  | some (.string serverName) =>
    if isServerNameValid serverName then .ok serverName
    else .error "server_name must be 1-11 characters using only A-Z, a-z, and 0-9"
  | _ => .error "Missing or invalid server_name"

def parseInitialUsd : Option Json → Except String Int
  | none => .ok 100000
  | some (.int64 raw) =>
    if raw < 0 ∨ intMax < raw then .error "initial_usd must be between 0 and 2147483647" else .ok raw
  | some _ => .error "initial_usd must be an integer"

def parseBots : Option Json → Except String JsonObject
  | none => .ok []
  | some (.object botsObj) => .ok botsObj
  | some _ => .error "bots must be an object"

/-- The body of a request; `none` stands for a text that is not JSON. -/
def parseServerConfig : Option Json → Except String ServerConfig
  | none => .error "Invalid JSON body"
  | some (.object body) => do
    let serverName ← parseServerName body
    let description := ((body.lookup "description").bind Json.string?).getD ""
    let initialUsd ← parseInitialUsd (body.lookup "initial_usd")
    let symbols := stringsOf (body.lookup "active_symbols")
    let allowlistNames := stringsOf (body.lookup "allowlist")
    if symbols = [] then .error "active_symbols must contain at least one symbol"
    else if allowlistNames = [] then .error "allowlist must contain at least one user"
    else
      let botsObj ← parseBots (body.lookup "bots")
      let mm ← (marketMakers initialUsd).parseBotConfig symbols botsObj
      let nt ← (noiseTraders initialUsd).parseBotConfig symbols botsObj
      let it ← informedTraders.parseBotConfig symbols botsObj
      let oracleCfg ← parseOracle (body.lookup "oracle")
      return { serverName, description, initialUsd, symbols, allowlistNames, botConfigs := [mm, nt, it], oracleCfg }
  | some _ => .error "Body must be a JSON object"

end Elsa.Backend
