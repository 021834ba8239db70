import Mathlib.Logic.Function.Basic
import Elsa.Backend.Users

/-!
# Configuring a server

`handle_configure_server` reads the row of the server, takes each of the description, the symbols and the allowlist
from the body if it is there, and writes all three: `configure_server` updates the row and replaces the allowlist.  A
description or a list of symbols that the body does not hold comes from the row.  For the allowlist there is no such
step, so that one that is not in the body becomes empty.

The symbols pass through the array literal of the column.  So a request changes what it names and nothing else if and
only if it names the allowlist, or there is none, and the literal keeps the symbols (`configure_changes_iff`).
-/

namespace Elsa.Backend

open Base Effect

/-- What `get_server` returns. -/
structure ServerInfo where
  serverId : Int
  adminId : Int
  serverName : String
  description : String
  activeTickers : List String
deriving DecidableEq, Repr

structure ConfigureResponse where
  serverName : String
  description : String
  activeSymbols : List String
  allowlist : List String
deriving DecidableEq, Repr

/-! ### The tables -/

/-- The rows of a server in the allowlist are replaced. -/
def Store.replaceAllowlist (st : Store) (serverId : Int) (userIds : List Int) : Option Store :=
  if h : serverId ∈ st.db.servers.map ServerRow.serverId ∧ userIds.Nodup ∧
      ∀ userId ∈ userIds, userId ∈ st.users.map UserRow.userId then
    have hmem : ∀ r ∈ st.allowlist.filter (fun r => r.serverId ≠ serverId) ++ allowlistRows serverId userIds,
        r ∈ st.allowlist ∨ r.serverId = serverId ∧ r.userId ∈ userIds := fun r hr => by
      rcases List.mem_append.1 hr with hr | hr
      · exact .inl (List.mem_of_mem_filter hr)
      · obtain ⟨userId, huser, rfl⟩ := List.mem_map.1 hr
        exact .inr ⟨rfl, huser⟩
    some { st with
      allowlist := st.allowlist.filter (fun r => r.serverId ≠ serverId) ++ allowlistRows serverId userIds
      allowlist_key := by
        rw [List.map_append, List.nodup_append]
        refine ⟨st.allowlist_key.sublist (List.filter_sublist.map _), ?_, ?_⟩
        · rw [allowlistRows, List.map_map]
          exact h.2.1.map fun u u' heq => (Prod.mk.inj heq).2
        · rintro k hk k' hk' rfl
          obtain ⟨r, hr, rfl⟩ := List.mem_map.1 hk
          obtain ⟨r', hr', heq⟩ := List.mem_map.1 hk'
          obtain ⟨userId, -, rfl⟩ := List.mem_map.1 hr'
          exact of_decide_eq_true (List.mem_filter.1 hr).2 (Prod.mk.inj heq).1.symm
      allowlist_server := fun r hr => by
        rcases hmem r hr with hr | ⟨hserver, _⟩
        · exact st.allowlist_server r hr
        · exact hserver ▸ h.1
      allowlist_user := fun r hr => by
        rcases hmem r hr with hr | ⟨_, huser⟩
        · exact st.allowlist_user r hr
        · exact h.2.2 _ huser }
  else none

/-- The row of a server is written and its allowlist replaced. -/
def Store.configure (st : Store) (serverId : Int) (description : String) (symbols : List String)
    (userIds : List Int) : Option Store :=
  (st.replaceAllowlist serverId userIds).map fun st =>
    { st with
      columns := Function.update st.columns serverId
        { st.columns serverId with description := some description, activeTickers := some (buildPgArray symbols) } }

/-- The row with the name, joined with the users by its admin. -/
def Store.findServer (st : Store) (serverName : String) : Option ServerInfo :=
  st.db.servers.findSome? fun row =>
    if row.serverName = serverName then
      ((st.columns row.serverId).adminId.filter fun adminId => adminId ∈ st.users.map UserRow.userId).map
        fun adminId =>
          { serverId := row.serverId, adminId, serverName := row.serverName
            description := (st.columns row.serverId).description.getD ""
            activeTickers := parsePgArray ((st.columns row.serverId).activeTickers.getD "\x7b\x7d") }
    else none

/-! ### Calls -/

variable (env : Env)

def getServer (serverName : String) : Handler (Option ServerInfo) :=
  transaction env (.getServer serverName) "Error getting server: " fun _ st => some (st.findServer serverName, st)

/-- `configure_server`: false if there is no such server or the caller is not its admin. -/
def configureServer (serverName : String) (callerId : Int) (description : String) (symbols : List String)
    (allowlistUserIds : List Int) : Handler Bool :=
  transaction env (.configureServer serverName) "Error configuring server: " fun _ st =>
    match st.db.servers.find? fun row => row.serverName = serverName with
    | none => some (false, st)
    | some row => (st.columns row.serverId).adminId.bind fun adminId =>
      if adminId ≠ callerId then some (false, st)
      else (st.configure row.serverId description symbols allowlistUserIds).map fun st => (true, st)

/-! ### The request -/

/-- The text of a field, if it is there and is a text. -/
def stringField (body : JsonObject) (key : String) : Option String := (body.lookup key).bind Json.string?

/-- The texts of a field, if it is there and is an array. -/
def stringsField (body : JsonObject) (key : String) : Option (List String) :=
  match body.lookup key with
  | some (.array values) => some (values.filterMap Json.string?)
  | _ => none

/-- The request of the admin of a server. -/
def configureAs (callerId : Int) (srv : ServerInfo) (body : JsonObject) : Handler ConfigureResponse := do
  let description := (stringField body "description").getD srv.description
  let symbols := (stringsField body "active_symbols").getD srv.activeTickers
  let allowlistNames := (stringsField body "allowlist").getD []
  let ids ← resolveUserIds env allowlistNames
  let _ ← configureServer env srv.serverName callerId description symbols ids
  return { serverName := srv.serverName, description, activeSymbols := symbols, allowlist := allowlistNames }

def handleConfigureServer (req : HttpRequest) : Handler ConfigureResponse := do
  let callerId ← authenticateAdmin env req.authorization
  if callerId < 0 then fail (.authError "Unauthorized: valid Authorization header required")
  else
    match req.body with
    | none => fail (.error "Invalid JSON body")
    | some (.object body) =>
      match body.lookup "server_name" with
      | some (.string serverName) => do
        match ← attempt (getServer env serverName) with
        | .error _ => fail (.error "Internal server error")
        | .ok none => fail (.error ("Server not found: " ++ serverName))
        | .ok (some srv) =>
          if srv.adminId ≠ callerId then fail (.authError "Forbidden: you are not the admin of this server")
          else configureAs env callerId srv body
      | _ => fail (.error "Missing or invalid server_name")
    | some _ => fail (.error "Body must be a JSON object")

/-! ### What a request changes -/

/-- The description of a server as it is read. -/
def Store.descriptionOf (st : Store) (serverId : Int) : String := (st.columns serverId).description.getD ""

/-- The symbols of a server as they are read. -/
def Store.symbolsOf (st : Store) (serverId : Int) : List String :=
  parsePgArray ((st.columns serverId).activeTickers.getD "\x7b\x7d")

def Store.Allowed (st : Store) (serverId userId : Int) : Prop := ⟨serverId, userId⟩ ∈ st.allowlist

/-- The user has one of the names. -/
def Store.Named (st : Store) (names : List String) (userId : Int) : Prop := ∃ name ∈ names, st.HasId name userId

/-- Of the server the fields that the body holds become as requested, the others are as before, and the other servers
are. -/
structure ChangesOnlyNamed (body : JsonObject) (serverId : Int) (st st' : Store) : Prop where
  description : st'.descriptionOf serverId = (stringField body "description").getD (st.descriptionOf serverId)
  symbols : st'.symbolsOf serverId = (stringsField body "active_symbols").getD (st.symbolsOf serverId)
  allowlist : ∀ userId, st'.Allowed serverId userId ↔ match stringsField body "allowlist" with
    | some names => st.Named names userId
    | none => st.Allowed serverId userId
  admin : (st'.columns serverId).adminId = (st.columns serverId).adminId
  servers : st'.db.servers = st.db.servers
  others : ∀ id ≠ serverId, st'.columns id = st.columns id ∧ ∀ userId, st'.Allowed id userId ↔ st.Allowed id userId

section

variable {env}

/-! ### The calls -/

theorem getServer_keeps (serverName : String) : Keeps (fun w : World => id w.store) (getServer env serverName) :=
  transaction_keeps fun _ _ _ _ h => by cases h; rfl

theorem getServer_ok {serverName : String} {w w' : World} {srv : ServerInfo}
    (h : attempt (getServer env serverName) w = (.ok (.ok (some srv)), w')) :
    w.store.findServer serverName = some srv :=
  congrArg Prod.fst (Option.some.inj (transaction_eq_ok (attempt_eq.1 h)))

theorem Store.findServer_eq_some {st : Store} {serverName : String} {srv : ServerInfo}
    (h : st.findServer serverName = some srv) :
    ⟨srv.serverId, serverName⟩ ∈ st.db.servers ∧ srv.serverName = serverName ∧
      (st.columns srv.serverId).adminId = some srv.adminId ∧
      srv.description = st.descriptionOf srv.serverId ∧ srv.activeTickers = st.symbolsOf srv.serverId := by
  obtain ⟨row, hrow, h⟩ := List.exists_of_findSome?_eq_some h
  split at h
  · rename_i hname
    obtain ⟨adminId, hadmin, rfl⟩ := Option.map_eq_some_iff.1 h
    cases row
    cases hname
    exact ⟨hrow, rfl, (Option.filter_eq_some_iff.1 hadmin).1, rfl, rfl⟩
  · cases h

theorem Store.findServer_of_row {st : Store} {serverName : String} {serverId adminId : Int}
    (hrow : ⟨serverId, serverName⟩ ∈ st.db.servers) (hadmin : (st.columns serverId).adminId = some adminId)
    (huser : adminId ∈ st.users.map UserRow.userId) :
    ∃ srv, st.findServer serverName = some srv ∧ srv.serverId = serverId ∧ srv.adminId = adminId := by
  have hfound : (st.findServer serverName).isSome = true := by
    refine List.findSome?_isSome_iff.2 ⟨_, hrow, ?_⟩
    simp [hadmin, Option.filter, huser]
  obtain ⟨srv, hsrv⟩ := Option.isSome_iff_exists.1 hfound
  obtain ⟨hrow', -, hadmin', -⟩ := findServer_eq_some hsrv
  -- the name is that of one server
  have hid : srv.serverId = serverId :=
    congrArg ServerRow.serverId (List.inj_on_of_nodup_map st.db.server_name hrow' hrow rfl)
  rw [hid, hadmin] at hadmin'
  exact ⟨srv, hsrv, hid, (Option.some.inj hadmin').symm⟩

/-- What `configure_server` writes. -/
structure Store.Configured (serverId : Int) (description : String) (symbols : List String) (userIds : List Int)
    (st st' : Store) : Prop where
  db : st'.db = st.db
  columns : st'.columns = Function.update st.columns serverId
    { st.columns serverId with description := some description, activeTickers := some (buildPgArray symbols) }
  allowlist : ∀ id userId, st'.Allowed id userId ↔
    if id = serverId then userId ∈ userIds else st.Allowed id userId

private theorem Store.configure_eq_some {st st' : Store} {serverId : Int} {description : String}
    {symbols : List String} {userIds : List Int} (h : st.configure serverId description symbols userIds = some st') :
    Configured serverId description symbols userIds st st' := by
  obtain ⟨st₁, hreplace, rfl⟩ := Option.map_eq_some_iff.1 h
  unfold replaceAllowlist at hreplace
  split at hreplace
  · cases hreplace
    refine ⟨rfl, rfl, fun id userId => ?_⟩
    unfold Allowed
    dsimp only
    rw [List.mem_append, List.mem_filter, allowlistRows, List.mem_map]
    by_cases hid : id = serverId
    · simp [hid]
    · simp [hid, Ne.symm hid]
  · cases hreplace

/-- The row and the allowlist are written when the caller is the admin. -/
private theorem configureServer_ok {serverId callerId : Int} {serverName description : String} {symbols : List String}
    {ids : List Int} {b : Bool} {w w' : World} (hrow : ⟨serverId, serverName⟩ ∈ w.store.db.servers)
    (hadmin : (w.store.columns serverId).adminId = some callerId)
    (h : configureServer env serverName callerId description symbols ids w = (.ok b, w')) :
    w.store.Configured serverId description symbols ids w'.store := by
  have hconfig := transaction_eq_ok h
  cases hfind : w.store.db.servers.find? fun row => row.serverName = serverName with
  | none => simpa using List.find?_eq_none.1 hfind _ hrow
  | some row =>
    have hname : row.serverName = serverName := by simpa using List.find?_some hfind
    obtain rfl : row = ⟨serverId, serverName⟩ :=
      List.inj_on_of_nodup_map w.store.db.server_name (List.mem_of_find?_eq_some hfind) hrow hname
    rw [hfind] at hconfig
    dsimp only at hconfig
    rw [hadmin, Option.bind_some, if_neg (not_not.2 rfl)] at hconfig
    obtain ⟨st, hst, heq⟩ := Option.map_eq_some_iff.1 hconfig
    obtain ⟨-, rfl⟩ := Prod.mk.inj heq
    exact Store.configure_eq_some hst

/-! ### The request -/

/-- The request of the admin writes the row and the allowlist. -/
private theorem configureAs_ok {callerId : Int} {srv : ServerInfo} {body : JsonObject} {w w' : World}
    {resp : ConfigureResponse} (hrow : ⟨srv.serverId, srv.serverName⟩ ∈ w.store.db.servers)
    (hadmin : (w.store.columns srv.serverId).adminId = some callerId)
    (h : configureAs env callerId srv body w = (.ok resp, w')) :
    resp.serverName = srv.serverName ∧
      ∃ ids, List.Forall₂ w.store.HasId ((stringsField body "allowlist").getD []) ids ∧
        w.store.Configured srv.serverId ((stringField body "description").getD srv.description)
          ((stringsField body "active_symbols").getD srv.activeTickers) ids w'.store := by
  obtain ⟨ids, w₁, hids, h⟩ := bind_eq_ok.1 h
  obtain ⟨hst, hids⟩ := resolveUserIds_ok hids
  obtain ⟨b, w₂, hconfig, h⟩ := bind_eq_ok.1 h
  cases h
  have hconfigured := configureServer_ok (hst ▸ hrow) (hst ▸ hadmin) hconfig
  rw [hst] at hconfigured
  exact ⟨rfl, ids, hids, hconfigured⟩

/-- A request that succeeds comes from the admin of the server it names, and writes the row and the allowlist. -/
private theorem handleConfigureServer_ok {req : HttpRequest} {body : JsonObject} {w w' : World}
    {resp : ConfigureResponse} (hbody : req.body = some (.object body))
    (h : handleConfigureServer env req w = (.ok resp, w')) :
    ∃ serverId ids, body.lookup "server_name" = some (.string resp.serverName) ∧
      ⟨serverId, resp.serverName⟩ ∈ w.store.db.servers ∧
      List.Forall₂ w.store.HasId ((stringsField body "allowlist").getD []) ids ∧
      w.store.Configured serverId ((stringField body "description").getD (w.store.descriptionOf serverId))
        ((stringsField body "active_symbols").getD (w.store.symbolsOf serverId)) ids w'.store := by
  obtain ⟨callerId, w₁, hauth, h⟩ := bind_eq_ok.1 h
  have hst₁ : w₁.store = w.store := (authenticateAdmin_keeps id _).of_run hauth
  by_cases hcaller : callerId < 0
  · cases (if_pos hcaller ▸ h : fail _ w₁ = _)
  rw [if_neg hcaller, hbody] at h
  dsimp only at h
  cases hname : body.lookup "server_name" with
  | none =>
    rw [hname] at h
    cases h
  | some value =>
    cases value with
    | string serverName =>
      rw [hname] at h
      obtain ⟨found, w₂, hget, h⟩ := bind_eq_ok.1 h
      have hst₂ : w₂.store = w.store := ((getServer_keeps serverName).attempt.of_run hget).trans hst₁
      cases found with
      | error e => cases h
      | ok found =>
        cases found with
        | none => cases h
        | some srv =>
          obtain ⟨hrow, rfl, hadmin, hdescription, htickers⟩ := Store.findServer_eq_some (getServer_ok hget)
          rw [hst₁] at hrow hadmin hdescription htickers
          dsimp only at h
          by_cases hcallerId : srv.adminId = callerId
          · rw [if_neg (not_not.2 hcallerId)] at h
            obtain ⟨hresp, ids, hids, hconfigured⟩ := configureAs_ok (hst₂ ▸ hrow) (hst₂ ▸ hcallerId ▸ hadmin) h
            rw [hst₂, hdescription, htickers] at hconfigured
            rw [hst₂] at hids
            rw [hresp]
            exact ⟨srv.serverId, ids, rfl, hrow, hids, hconfigured⟩
          · rw [if_pos hcallerId] at h
            cases h
    | _ =>
      rw [hname] at h
      cases h

/-- A request that succeeds changes what it names and nothing else if and only if it names the allowlist, or there is
none, and the literal keeps the symbols that it writes. -/
theorem configure_changes_iff (env : Env) (req : HttpRequest) (body : JsonObject) (w w' : World)
    (resp : ConfigureResponse) (hbody : req.body = some (.object body))
    (h : handleConfigureServer env req w = (.ok resp, w')) :
    ∃ serverId, body.lookup "server_name" = some (.string resp.serverName) ∧
      ⟨serverId, resp.serverName⟩ ∈ w.store.db.servers ∧
      (ChangesOnlyNamed body serverId w.store w'.store ↔
        (stringsField body "allowlist" ≠ none ∨ ∀ userId, ¬ w.store.Allowed serverId userId) ∧
          ∀ symbol ∈ (stringsField body "active_symbols").getD (w.store.symbolsOf serverId), Kept symbol) := by
  obtain ⟨serverId, ids, hname, hrow, hids, hconfigured⟩ := handleConfigureServer_ok hbody h
  refine ⟨serverId, hname, hrow, ?_⟩
  -- the allowlist is that of the body, and empty if the body has none
  have hallowed : ∀ id userId, w'.store.Allowed id userId ↔ if id = serverId
      then w.store.Named ((stringsField body "allowlist").getD []) userId else w.store.Allowed id userId := by
    intro id userId
    rw [hconfigured.allowlist, mem_iff_of_hasId hids, Store.Named]
  have hsymbols : w'.store.symbolsOf serverId =
      parsePgArray (buildPgArray ((stringsField body "active_symbols").getD (w.store.symbolsOf serverId))) := by
    rw [Store.symbolsOf, hconfigured.columns, Function.update_self]
    rfl
  constructor
  · intro hchanges
    refine ⟨?_, parse_build_iff.1 (hsymbols.symm.trans hchanges.symbols)⟩
    by_cases hnone : stringsField body "allowlist" = none
    · refine .inr fun userId hold => ?_
      have hnew := hchanges.allowlist userId
      rw [hallowed, if_pos rfl, hnone] at hnew
      obtain ⟨name, hmem, _⟩ := hnew.2 hold
      cases hmem
    · exact .inl hnone
  · rintro ⟨hlist, hkept⟩
    refine ⟨?_, hsymbols.trans (parse_build_iff.2 hkept), fun userId => ?_, ?_, ?_,
      fun id hid => ⟨?_, fun userId => ?_⟩⟩
    · rw [Store.descriptionOf, hconfigured.columns, Function.update_self]
      rfl
    · rw [hallowed, if_pos rfl]
      cases hfield : stringsField body "allowlist" with
      | some names => rfl
      | none =>
        have hempty := hlist.resolve_left (not_not.2 hfield)
        exact iff_of_false (fun hnamed => by obtain ⟨name, hmem, _⟩ := hnamed; cases hmem) (hempty userId)
    · rw [hconfigured.columns, Function.update_self]
    · rw [hconfigured.db]
    · rw [hconfigured.columns, Function.update_of_ne hid]
    · rw [hallowed, if_neg hid]

end

/-! ### Sample requests -/

/-- The server `alpha` of `ann`, on which `ann` and `bob` trade one symbol. -/
def sampleConfigWorld : World where
  log := []
  store :=
    { sampleWorld.store with
      db :=
        { State.emptyDatabase with
          servers := [⟨7, "alpha"⟩]
          server_key := by decide
          server_name := by decide
          service_server := by decide }
      columns := fun _ => ⟨some 1, some "first", some "\x7bGME\x7d"⟩
      users := [⟨1, "ann"⟩, ⟨2, "bob"⟩]
      allowlist := [⟨7, 1⟩, ⟨7, 2⟩]
      user_key := by decide
      user_name := by decide
      allowlist_key := by decide
      allowlist_server := by decide
      allowlist_user := by decide
      balance_server := by decide
      balance_user := by decide
      portfolio_server := by decide
      portfolio_user := by decide }

/-- `ann` configures the server. -/
def configureRequest (fields : JsonObject) : HttpRequest :=
  ⟨some "Bearer ann", some (.object (("server_name", .string "alpha") :: fields))⟩

/-- A request that names the symbols and the allowlist. -/
theorem configure_sample : ∃ resp w',
    handleConfigureServer (calmEnv fun _ _ => none)
      (configureRequest [("active_symbols", .array [.string "AAPL", .string "GME"]),
        ("allowlist", .array [.string "bob"])]) sampleConfigWorld = (.ok resp, w') ∧
    ChangesOnlyNamed [("server_name", .string "alpha"), ("active_symbols", .array [.string "AAPL", .string "GME"]),
      ("allowlist", .array [.string "bob"])] 7 sampleConfigWorld.store w'.store := by
  have hrun : (handleConfigureServer (calmEnv fun _ _ => none)
      (configureRequest [("active_symbols", .array [.string "AAPL", .string "GME"]),
        ("allowlist", .array [.string "bob"])]) sampleConfigWorld).1 =
        .ok ⟨"alpha", "first", ["AAPL", "GME"], ["bob"]⟩ := by
    decide +kernel
  have heq := eq_of_fst hrun
  obtain ⟨serverId, -, hrow, hiff⟩ := configure_changes_iff _ _ _ _ _ _ rfl heq
  obtain rfl : serverId = 7 := by simpa [sampleConfigWorld] using hrow
  exact ⟨_, _, heq, hiff.2 ⟨.inl (by decide +kernel), by decide +kernel⟩⟩

/-- A request that names the description alone: the allowlist is gone. -/
theorem configure_clears_allowlist : ∃ resp w',
    handleConfigureServer (calmEnv fun _ _ => none) (configureRequest [("description", .string "second")])
      sampleConfigWorld = (.ok resp, w') ∧
    sampleConfigWorld.store.Allowed 7 2 ∧ w'.store.allowlist = [] ∧
    ¬ ChangesOnlyNamed [("server_name", .string "alpha"), ("description", .string "second")] 7
      sampleConfigWorld.store w'.store := by
  have hrun : (handleConfigureServer (calmEnv fun _ _ => none) (configureRequest [("description", .string "second")])
      sampleConfigWorld).1 = .ok ⟨"alpha", "second", ["GME"], []⟩ := by
    decide +kernel
  have hgone : (handleConfigureServer (calmEnv fun _ _ => none) (configureRequest [("description", .string "second")])
      sampleConfigWorld).2.store.allowlist = [] := by
    decide +kernel
  have hbob : sampleConfigWorld.store.Allowed 7 2 := by
    unfold Store.Allowed
    decide
  refine ⟨_, _, eq_of_fst hrun, hbob, hgone, fun hchanges => ?_⟩
  have hstill : _ ∈ _ := (hchanges.allowlist 2).2 hbob
  rw [hgone] at hstill
  cases hstill

end Elsa.Backend
