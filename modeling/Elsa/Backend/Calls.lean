import Elsa.Backend.Creation
import Elsa.Backend.Ports

/-!
# What the calls of a request do

Up to the transaction that creates the server a request changes no table but the users (`prepareServer_keeps`).  A
request whose transaction was committed has found its name free, and the server is there now (`openServer_ok`).
-/

namespace Elsa.Backend

open Base Effect

variable {env : Env} {A : Arith}

/-- The servers, their other columns, the allowlist, the services and the balances. -/
def Store.tables (st : Store) :
    List ServerRow × (Int → ServerColumns) × List AllowlistRow × List ServiceRow × List BalanceRow :=
  (st.db.servers, st.columns, st.allowlist, st.db.services, st.balances)

/-- What the calls after the creation of a server leave alone. -/
def Store.registry (st : Store) : Database × (Int → ServerColumns) × List UserRow × List AllowlistRow :=
  (st.db, st.columns, st.users, st.allowlist)

/-! ### What the calls leave alone -/

theorem transaction_keeps {α γ : Type} {obs : Store → γ} {op : Operation} {label : String}
    {f : Nat → Store → Option (α × Store)} (h : ∀ k st a st', f k st = some (a, st') → obs st' = obs st) :
    Keeps (fun w : World => obs w.store) (transaction env op label f) := by
  intro w
  unfold transaction
  split
  · rename_i a store heq
    split at heq
    · cases heq
    · exact h _ _ _ _ heq
  · rfl

/-- A call that commits has done what it does to the tables. -/
theorem transaction_eq_ok {α : Type} {op : Operation} {label : String} {f : Nat → Store → Option (α × Store)}
    {w w' : World} {a : α} (h : transaction env op label f w = (.ok a, w')) :
    f w.calls w.store = some (a, w'.store) := by
  unfold transaction at h
  split at h
  · rename_i heq
    cases h
    split at heq
    · cases heq
    · exact heq
  · cases h

/-- A call that writes, and returns a value that does not depend on the tables. -/
theorem transaction_write_eq_ok {α : Type} {op : Operation} {label : String} {v : Nat → α}
    {f : Nat → Store → Option Store} {w w' : World} {a : α}
    (h : transaction env op label (fun k st => (f k st).map fun st => (v k, st)) w = (.ok a, w')) :
    f w.calls w.store = some w'.store ∧ a = v w.calls := by
  obtain ⟨st, hst, hpair⟩ := Option.map_eq_some_iff.1 (transaction_eq_ok h)
  cases hpair
  exact ⟨hst, rfl⟩

theorem transaction_keeps_of_write {α γ : Type} {obs : Store → γ} {op : Operation} {label : String} {v : Nat → α}
    {f : Nat → Store → Option Store} (h : ∀ k st st', f k st = some st' → obs st' = obs st) :
    Keeps (fun w : World => obs w.store) (transaction env op label fun k st => (f k st).map fun st => (v k, st)) := by
  refine transaction_keeps fun k st a st' heq => ?_
  obtain ⟨st₁, hst, hpair⟩ := Option.map_eq_some_iff.1 heq
  cases hpair
  exact h k st st' hst

theorem deployService_keeps {γ : Type} (obs : Store → γ) (deployment : Deployment) :
    Keeps (fun w : World => obs w.store) (deployService env deployment) := by
  intro w
  unfold deployService
  split <;> rfl

/-- A call that only reads. -/
private theorem transaction_keeps_of_read {α γ : Type} {obs : Store → γ} {op : Operation} {label : String}
    {f : Nat → Store → Option α} :
    Keeps (fun w : World => obs w.store) (transaction env op label fun k st => (f k st).map fun a => (a, st)) := by
  refine transaction_keeps fun k st a st' h => ?_
  obtain ⟨b, -, hb⟩ := Option.map_eq_some_iff.1 h
  cases hb
  rfl

private theorem getUser_keeps {γ : Type} (obs : Store → γ) (username : String) :
    Keeps (fun w : World => obs w.store) (getUser env username) :=
  transaction_keeps fun _ _ _ _ h => by cases h; rfl

private theorem createUser_keeps (username : String) :
    Keeps (fun w : World => w.store.tables) (createUser env username) := by
  refine transaction_keeps_of_write fun k st st' h => ?_
  obtain ⟨-, hdb, hcolumns, hallowlist, hbalances⟩ := Store.createUser_eq_some h
  rw [Store.tables, hdb, hcolumns, hallowlist, hbalances, Store.tables]

theorem authenticateAdmin_keeps {γ : Type} (obs : Store → γ) (authorization : Option String) :
    Keeps (fun w : World => obs w.store) (authenticateAdmin env authorization) := by
  unfold authenticateAdmin
  split
  · exact Keeps.pure _
  · refine Keeps.ite ((getUser_keeps obs _).attempt.bind fun result => ?_) (Keeps.pure _)
    split
    · exact Keeps.pure _
    · exact Keeps.pure _

private theorem botUser_keeps (username : String) :
    Keeps (fun w : World => w.store.tables) (botUser env username) := by
  refine (getUser_keeps _ _).bind fun user => ?_
  cases user with
  | some user => exact Keeps.pure _
  | none => exact createUser_keeps username

private theorem botGroups_keeps (serviceName : String) (configs : List BotGroupConfig) (runningIndex : Nat) :
    Keeps (fun w : World => w.store.tables) (botGroups env serviceName configs runningIndex) := by
  induction configs generalizing runningIndex with
  | nil => exact Keeps.pure _
  | cons config configs ih =>
    exact (Keeps.collect botUser_keeps _).bind fun _ => (ih _).bind fun _ => Keeps.pure _

private theorem resolveUserId_keeps {γ : Type} (obs : Store → γ) (username : String) :
    Keeps (fun w : World => obs w.store) (resolveUserId env username) := by
  refine (getUser_keeps obs _).bind fun user => ?_
  cases user with
  | some user => exact Keeps.pure _
  | none => exact Keeps.fail _

private theorem queryMachines_keeps {γ : Type} (obs : Store → γ) :
    Keeps (fun w : World => obs w.store) (queryMachines env) :=
  transaction_keeps fun _ _ _ _ h => by cases h; rfl

private theorem queryServices_keeps {γ : Type} (obs : Store → γ) (machineName : String) :
    Keeps (fun w : World => obs w.store) (queryServices env machineName) :=
  transaction_keeps_of_read

/-- Before the server is created only users are. -/
theorem prepareServer_keeps (req : HttpRequest) :
    Keeps (fun w : World => w.store.tables) (prepareServer env req) := by
  refine (authenticateAdmin_keeps _ _).bind fun callerId => Keeps.ite (Keeps.fail _) ?_
  refine (Keeps.lift _).bind fun config => ?_
  refine (Keeps.collect (fun c => (botGroups_keeps _ _ _).bind fun _ => Keeps.pure _) _).bind fun bots => ?_
  refine (Keeps.collect (resolveUserId_keeps _) _).bind fun ids => ?_
  refine (queryMachines_keeps _).bind fun machines => ?_
  cases machines with
  | nil => exact Keeps.fail _
  | cons machine machines => exact (queryServices_keeps _ _).bind fun _ => Keeps.pure _

theorem createServerWithServices_ok {new : Store.ServerInsert} {w w' : World} {serverId : Int}
    (h : createServerWithServices env new w = (.ok serverId, w')) :
    w.store.createServerWithServices serverId new = some w'.store := by
  obtain ⟨hcreate, rfl⟩ := transaction_write_eq_ok h
  exact hcreate

/-- A call that fails has written nothing. -/
theorem transaction_eq_error {α : Type} {op : Operation} {label : String} {f : Nat → Store → Option (α × Store)}
    {w w' : World} {e : Failure} (h : transaction env op label f w = (.error e, w')) : w'.store = w.store := by
  unfold transaction at h
  split at h
  · cases h
  · cases h
    rfl

/-! ### Up to the creation of the server -/

/-- The steps of a request that succeed before the server is created. -/
theorem prepareServer_ok {req : HttpRequest} {w w' : World} {plan : ServerPlan}
    (h : prepareServer env req w = (.ok plan, w')) :
    parseServerConfig req.body = .ok plan.config ∧
      plan.allowlistNames = allAllowlistNames plan.config.allowlistNames plan.bots ∧ ∃ w₁ w₂ w₃,
      collect (botConfig env) plan.config.botConfigs w₁ = (.ok plan.bots, w₂) ∧
      resolveUserIds env (allAllowlistNames plan.config.allowlistNames plan.bots) w₂ =
        (.ok plan.allowlistUserIds, w₃) ∧ w'.store = w₃.store := by
  unfold prepareServer at h
  obtain ⟨callerId, w₁, -, h⟩ := bind_eq_ok.1 h
  split at h
  · cases h
  obtain ⟨config, w₂, hconfig, h⟩ := bind_eq_ok.1 h
  obtain ⟨bots, w₃, hbots, h⟩ := bind_eq_ok.1 h
  obtain ⟨ids, w₄, hids, h⟩ := bind_eq_ok.1 h
  obtain ⟨machines, w₅, hmachines, h⟩ := bind_eq_ok.1 h
  cases machines with
  | nil => cases h
  | cons machine machines =>
    obtain ⟨used, w₆, hused, h⟩ := bind_eq_ok.1 h
    cases h
    have hread : w'.store = w₅.store := (queryServices_keeps id _).of_run hused
    have hread' : w₅.store = w₄.store := (queryMachines_keeps id).of_run hmachines
    refine ⟨?_, rfl, w₂, w₃, w₄, hbots, hids, hread.trans hread'⟩
    cases hparse : parseServerConfig req.body with
    | ok cfg => rw [hparse] at hconfig; cases hconfig; rfl
    | error text => rw [hparse] at hconfig; cases hconfig

/-- The server of a request that commits: its name was free, and now it is there. -/
theorem openServer_ok {req : HttpRequest} {w w' : World} {s : NewServer} (h : openServer env req w = (.ok s, w')) :
    parseServerConfig req.body = .ok s.config ∧ s.config.serverName ∉ w.store.db.servers.map ServerRow.serverName ∧
      w'.store.db.servers = w.store.db.servers ++ [⟨s.serverId, s.config.serverName⟩] := by
  obtain ⟨plan, w₁, hplan, h⟩ := bind_eq_ok.1 h
  obtain ⟨serverId, w₂, hcreate, h⟩ := bind_eq_ok.1 h
  cases h
  have hservers : w₁.store.db.servers = w.store.db.servers :=
    congrArg Prod.fst ((prepareServer_keeps req).of_run hplan)
  have hc := (Store.createServerWithServices_eq_some (createServerWithServices_ok hcreate)).db
  refine ⟨(prepareServer_ok hplan).1, ?_, ?_⟩
  · rw [← hservers]
    exact hc.insertable.2.1
  · rw [← hservers]
    exact hc.servers

theorem openServer_error {req : HttpRequest} {w w' : World} {f : Failure}
    (h : openServer env req w = (.error f, w')) : w'.store.tables = w.store.tables := by
  rcases bind_eq_error.1 h with h | ⟨plan, w₁, hplan, h⟩
  · exact (prepareServer_keeps req).of_run h
  rcases bind_eq_error.1 h with h | ⟨serverId, w₂, -, h⟩
  · rw [transaction_eq_error h]
    exact (prepareServer_keeps req).of_run hplan
  · cases h

/-! ### Sample requests -/

/-- Nothing fails but what the deployment server refuses. -/
def calmEnv (deployError : Nat → Deployment → Option String) : Env where
  down _ := false
  what _ := ""
  newUserId k := 100 + k
  newServerId _ := 1
  deployError := deployError
  scaleInventory x := (x * 100).floor
  machineOrder := id
  usdOrder := id
  userOrder := id
  symbolOrder := id
  machineOrder_perm _ := .refl _
  usdOrder_perm _ := .refl _
  userOrder_perm _ := .refl _
  symbolOrder_perm _ := .refl _

/-- One user and no server. -/
def sampleWorld : World where
  log := []
  store :=
    { db := State.emptyDatabase
      columns := fun _ => ⟨none, none, none⟩
      users := [⟨1, "ann"⟩]
      allowlist := []
      balances := []
      initBotPortfolioBalances := []
      user_key := by decide
      user_name := by decide
      allowlist_key := by decide
      allowlist_server := by decide
      allowlist_user := by decide
      balance_key := by decide
      balance_server := by decide
      balance_user := by decide
      portfolio_key := by decide
      portfolio_server := by decide
      portfolio_user := by decide }

/-- `ann` asks for a server with the given symbols, users and market makers. -/
def sampleRequest (symbols users : List String) (count : Int) : HttpRequest :=
  ⟨some "Bearer ann",
    some (.object [("server_name", .string "alpha"), ("active_symbols", .array (symbols.map .string)),
      ("allowlist", .array (users.map .string)), ("bots", .object [("mm", .object [("count", .int64 count)])])])⟩

/-- A run whose result is known is that result with the world it leaves. -/
theorem eq_of_fst {α β : Type} {r : α × β} {a : α} (h : r.1 = a) : r = (a, r.2) :=
  Prod.ext h rfl

/-- The run of a sample request. -/
def sampleRun (deployError : Nat → Deployment → Option String) (req : HttpRequest) :
    Except Failure CreateResponse × World :=
  handleCreateServer (calmEnv deployError) .machine req sampleWorld

end Elsa.Backend
