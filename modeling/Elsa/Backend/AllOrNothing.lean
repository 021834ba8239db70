import Mathlib.Data.List.ProdSigma
import Elsa.Backend.InitialBalances

/-!
# What a failed request leaves behind

Up to the transaction that creates the server a request changes no table but the users (`prepareServer_keeps`), and
after it the server stays, whatever happens.  What can fail from then on is a call to insert a balance, to write a
portfolio or to start a service, for a reason from outside, and the insertion of a balance that is there: that happens
when a symbol is listed twice and there is a bot, since the loop over the bots takes the symbols as the request lists
them (`nodup_keys`).  So a response with an error means that nothing was written exactly when none of this happened
(`creation_unchanged_iff`).  Otherwise the name is taken, and the same request fails from then on.
-/

namespace Elsa.Backend

open Base Effect

variable {env : Env} {A : Arith}

/-- The creation of the server is committed. -/
def Commits (env : Env) (req : HttpRequest) (w : World) : Prop := ∃ s w₁, openServer env req w = (.ok s, w₁)

/-- Between the two worlds a balance or a portfolio was to be written, or a service to be started: the call has the
given number. -/
def LateCall (w w' : World) (call : Nat) (op : Operation) : Prop :=
  w.calls ≤ call ∧ w'.log[call]? = some op ∧ op.Late

/-- The request lists a symbol other than dollars twice, and it asks for a bot. -/
def RepeatsForBot (req : HttpRequest) : Prop :=
  ∃ config, parseServerConfig req.body = .ok config ∧ ¬ (config.symbols.filter (· ≠ "USD")).Nodup ∧
    ∃ bot ∈ config.botConfigs, ∃ group ∈ bot.groups, 0 < group.count

/-- A call for a balance, a portfolio or a service was made that fails from outside, or that comes from a request
that lists a symbol twice for a bot. -/
def Hindered (env : Env) (req : HttpRequest) (w w' : World) : Prop :=
  ∃ call op, LateCall w w' call op ∧ (env.Fails call op ∨ RepeatsForBot req)

/-! ### The calls up to the creation of the server -/

/-- The calls between the two worlds are for no balance, portfolio or service. -/
private def Early (w w' : World) : Prop := ∃ ops, w'.log = w.log ++ ops ∧ ∀ op ∈ ops, ¬ op.Late

private theorem Early.refl (w : World) : Early w w := ⟨[], by simp, by simp⟩

private theorem Early.trans (w w' w'' : World) : Early w w' → Early w' w'' → Early w w'' := by
  rintro ⟨ops, hlog, hops⟩ ⟨ops', hlog', hops'⟩
  refine ⟨ops ++ ops', by rw [hlog', hlog, List.append_assoc], fun op hop => ?_⟩
  exact (List.mem_append.1 hop).elim (hops op) (hops' op)

private theorem Early.not_lateCall {w w' : World} (h : Early w w') (call : Nat) (op : Operation) :
    ¬ LateCall w w' call op := by
  obtain ⟨ops, hlog, hops⟩ := h
  rintro ⟨hcall, hop, hlate⟩
  rw [hlog, List.getElem?_append_right hcall] at hop
  exact hops op (List.mem_of_getElem? hop) hlate

/-- Calls for other things add no such call. -/
private theorem Early.lateCall {w w' w'' : World} (h : Early w' w'') {call : Nat} {op : Operation}
    (hcall : LateCall w w'' call op) : LateCall w w' call op := by
  obtain ⟨hfrom, hop, hlate⟩ := hcall
  by_cases hlater : w'.calls ≤ call
  · exact absurd ⟨hlater, hop, hlate⟩ (h.not_lateCall call op)
  · obtain ⟨ops, hlog, -⟩ := h
    rw [hlog, List.getElem?_append_left (not_le.1 hlater)] at hop
    exact ⟨hfrom, hop, hlate⟩

private theorem transaction_early {α : Type} {op : Operation} {label : String}
    {f : Nat → Store → Option (α × Store)} (hop : ¬ op.Late) : Moves Early (transaction env op label f) := by
  intro w
  unfold transaction
  split <;> exact ⟨[op], rfl, List.forall_mem_singleton.2 hop⟩

private theorem getUser_early (username : String) : Moves Early (getUser env username) := transaction_early id

private theorem authenticateAdmin_early (authorization : Option String) :
    Moves Early (authenticateAdmin env authorization) := by
  unfold authenticateAdmin
  split
  · exact Early.refl
  · refine Moves.ite ((getUser_early _).attempt.bind Early.trans fun result => ?_) Early.refl
    split <;> exact Early.refl

private theorem botUser_early (username : String) : Moves Early (botUser env username) := by
  refine (getUser_early username).bind Early.trans fun user => ?_
  cases user with
  | some user => exact Early.refl
  | none => exact transaction_early id

private theorem botGroups_early (serviceName : String) (configs : List BotGroupConfig) (runningIndex : Nat) :
    Moves Early (botGroups env serviceName configs runningIndex) := by
  induction configs generalizing runningIndex with
  | nil => exact Early.refl
  | cons config configs ih =>
    refine (Moves.collect Early.refl Early.trans fun username _ => botUser_early username).bind Early.trans ?_
    exact fun _ => (ih _).bind Early.trans fun _ => Early.refl

private theorem resolveUserId_early (username : String) : Moves Early (resolveUserId env username) := by
  refine (getUser_early username).bind Early.trans fun user => ?_
  cases user with
  | some user => exact Early.refl
  | none => exact Early.refl

private theorem prepareServer_early (req : HttpRequest) : Moves Early (prepareServer env req) := by
  refine (authenticateAdmin_early _).bind Early.trans fun callerId => Moves.ite Early.refl ?_
  have hlift : Moves Early (lift ((parseServerConfig req.body).mapError .error) : Handler ServerConfig) := Early.refl
  refine hlift.bind Early.trans fun config => ?_
  have hbot : ∀ c, Moves Early (botConfig env c) := fun c =>
    (botGroups_early _ _ _).bind Early.trans fun _ => Early.refl
  refine (Moves.collect Early.refl Early.trans fun c _ => hbot c).bind Early.trans fun bots => ?_
  refine (Moves.collect Early.refl Early.trans fun name _ => resolveUserId_early name).bind Early.trans fun ids => ?_
  have hmachines : Moves Early (queryMachines env) := transaction_early id
  refine hmachines.bind Early.trans fun machines => ?_
  cases machines with
  | nil => exact Early.refl
  | cons machine machines =>
    have hservices : Moves Early (queryServices env machine.machineName) := transaction_early id
    exact hservices.bind Early.trans fun _ => Early.refl

private theorem openServer_early (req : HttpRequest) : Moves Early (openServer env req) := by
  refine (prepareServer_early req).bind Early.trans fun plan => ?_
  have hcreate : Moves Early (createServerWithServices env plan.insert) := transaction_early id
  exact hcreate.bind Early.trans fun _ => Early.refl

/-! ### The calls after it -/

private theorem inserts_deployService (s : NewServer) (deployment : Deployment) :
    Inserts env s [] (deployService env deployment) where
  keeps := deployService_keeps Store.registry deployment
  grows w := by
    unfold deployService
    split <;> exact List.prefix_append _ _
  ok h := by
    unfold deployService at h
    split at h
    · cases h
      simp
    · cases h
  clean {w w'} h call op hcall hop := by
    unfold deployService at h
    split at h
    · rename_i hok
      cases h
      obtain ⟨rfl, rfl⟩ := eq_of_getElem?_append_singleton hcall hop
      exact fun hfails => hfails hok
    · cases h
  error {w f w'} _ h := by
    unfold deployService at h
    split at h
    · cases h
    · rename_i text hfails
      cases h
      refine ⟨w, _, [], List.prefix_refl _, rfl, trivial, rfl, by simp, .inl ?_⟩
      exact fun hnone => Option.some_ne_none text (hfails.symm.trans hnone)

private theorem inserts_deployGroup (s : NewServer) (serviceName : String) (group : BotGroup) :
    Inserts env s [] (deployGroup env s serviceName group) := by
  unfold deployGroup
  split
  · exact Inserts.pure
  · exact inserts_deployService s _

/-- Calls that insert nothing. -/
private theorem inserts_each_nil {α : Type} {s : NewServer} {f : α → Handler Unit} {as : List α}
    (h : ∀ a ∈ as, Inserts env s [] (f a)) : Inserts env s [] (each f as) := by
  have hnil : as.flatMap (fun _ => ([] : List BalanceRow)) = [] := List.flatMap_eq_nil_iff.2 fun _ _ => rfl
  rw [← hnil]
  exact Inserts.each h

private theorem inserts_deployAll (s : NewServer) : Inserts env s [] (deployAll env s) := by
  have hservices : Inserts env s [] (each (deployService env) (serviceDeployments s)) :=
    inserts_each_nil fun deployment _ => inserts_deployService s deployment
  exact hservices.bind (inserts_each_nil fun bot _ => inserts_each_nil fun group _ =>
    inserts_deployGroup s bot.serviceName group)

/-- The balances are inserted and everything is started. -/
private def furnish (env : Env) (A : Arith) (s : NewServer) : Handler Unit := do
  insertBalances env A s
  deployAll env s

private theorem Planned.inserts_furnish {s : NewServer} (hp : Planned s) :
    Inserts env s (usdRows s env A ++ (zeroRows s env ++ botRows s env)) (furnish env A s) := by
  rw [← List.append_nil (usdRows s env A ++ _)]
  exact hp.inserts_insertBalances.bind (inserts_deployAll s)

/-- The tables of the other database do not matter for the response. -/
private theorem furnish_of_fillServer {s : NewServer} {w w' : World} {r : Except Failure CreateResponse}
    (h : fillServer env A s w = (r, w')) :
    (∃ f, r = .error f ∧ furnish env A s w = (.error f, w')) ∨
    ∃ response w₁, r = .ok response ∧ furnish env A s w = (.ok (), w₁) ∧ w'.store = w₁.store ∧ Early w₁ w' := by
  cases r with
  | error f =>
    refine .inl ⟨f, rfl, ?_⟩
    rcases bind_eq_error.1 h with h | ⟨_, w₁, hinsert, h⟩
    · exact bind_eq_error.2 (.inl h)
    rcases bind_eq_error.1 h with h | ⟨_, w₂, hdeploy, h⟩
    · exact bind_eq_error.2 (.inr ⟨(), w₁, hinsert, h⟩)
    rcases bind_eq_error.1 h with h | ⟨_, w₃, -, h⟩
    · cases h
    · cases h
  | ok response =>
    obtain ⟨_, w₁, hinsert, h⟩ := bind_eq_ok.1 h
    obtain ⟨_, w₂, hdeploy, h⟩ := bind_eq_ok.1 h
    obtain ⟨tables, w₃, hquest, h⟩ := bind_eq_ok.1 h
    cases h
    have hquest := attempt_eq.1 hquest
    refine .inr ⟨_, w₂, rfl, bind_eq_ok.2 ⟨(), w₁, hinsert, hdeploy⟩, ?_, ?_⟩
    · exact (transaction_keeps fun _ _ _ _ h => by cases h; rfl : Keeps (fun w : World => id w.store) _).of_run hquest
    · exact (transaction_early id : Moves Early (createQuestTables env s.config.serverName)).of_run hquest

/-! ### The keys of the rows -/

private theorem nodup_eraseDups {α : Type} [DecidableEq α] : ∀ l : List α, l.eraseDups.Nodup
  | [] => List.nodup_nil
  | a :: l => by
    rw [List.eraseDups_cons]
    refine List.nodup_cons.2 ⟨fun hmem => ?_, nodup_eraseDups _⟩
    rw [List.mem_eraseDups, List.mem_filter] at hmem
    simp at hmem
  termination_by l => l.length
  decreasing_by exact Nat.lt_succ_of_le (List.length_filter_le _ _)

/-- The keys of a row for each user and each symbol. -/
private def keyGrid (serverId : Int) (userIds : List Int) (symbols : List String) : List (Int × String × Int) :=
  userIds.flatMap fun userId => symbols.map fun symbol => (userId, symbol, serverId)

private theorem mem_keyGrid {serverId : Int} {userIds : List Int} {symbols : List String} {key : Int × String × Int} :
    key ∈ keyGrid serverId userIds symbols ↔ key.1 ∈ userIds ∧ key.2.1 ∈ symbols ∧ key.2.2 = serverId := by
  obtain ⟨userId, symbol, id⟩ := key
  simp only [keyGrid, List.mem_flatMap, List.mem_map, Prod.mk.injEq]
  constructor
  · rintro ⟨_, huser, _, hsymbol, rfl, rfl, rfl⟩
    exact ⟨huser, hsymbol, rfl⟩
  · rintro ⟨huser, hsymbol, rfl⟩
    exact ⟨userId, huser, symbol, hsymbol, rfl, rfl, rfl⟩

private theorem keyGrid_nodup {serverId : Int} {userIds : List Int} {symbols : List String} (husers : userIds.Nodup)
    (hsymbols : symbols.Nodup) : (keyGrid serverId userIds symbols).Nodup := by
  refine List.nodup_flatMap.2 ⟨fun userId _ => hsymbols.map fun _ _ h => (Prod.mk.inj (Prod.mk.inj h).2).1, ?_⟩
  refine husers.imp fun {userId userId'} hne key hmem hmem' => hne ?_
  obtain ⟨_, -, rfl⟩ := List.mem_map.1 hmem
  obtain ⟨_, -, heq⟩ := List.mem_map.1 hmem'
  exact (Prod.mk.inj heq).1.symm

/-- The keys for one user show whether a symbol is listed twice. -/
private theorem nodup_of_keyGrid {serverId : Int} {userIds : List Int} {symbols : List String}
    (h : (keyGrid serverId userIds symbols).Nodup) (hne : userIds ≠ []) : symbols.Nodup := by
  obtain ⟨userId, huser⟩ := List.exists_mem_of_ne_nil userIds hne
  exact ((List.nodup_flatMap.1 h).1 userId huser).of_map _

section

variable {s : NewServer}

private theorem initialUsdByUserId_nodup : ((initialUsdByUserId s).map Prod.fst).Nodup := by
  have hassign : ∀ (m : List (Int × Int)) key value, (m.map Prod.fst).Nodup →
      ((assign m key value).map Prod.fst).Nodup := fun m key value hm => by
    refine List.nodup_cons.2 ⟨fun hmem => ?_, hm.sublist (List.filter_sublist.map _)⟩
    obtain ⟨p, hp, rfl⟩ := List.mem_map.1 hmem
    exact of_decide_eq_true (List.mem_filter.1 hp).2 rfl
  have hfold : ∀ (ids : List Int) (m : List (Int × Int)) value, (m.map Prod.fst).Nodup →
      ((ids.foldl (fun m userId => assign m userId value) m).map Prod.fst).Nodup := fun ids m value hm =>
    List.foldlRecOn (motive := fun m : List (Int × Int) => (m.map Prod.fst).Nodup) ids _ hm fun m hm userId _ =>
      hassign m userId value hm
  refine List.foldlRecOn (motive := fun m : List (Int × Int) => (m.map Prod.fst).Nodup) (allGroups s.bots) _ ?_
    fun m hm group _ => hfold _ _ _ hm
  exact hassign _ _ _ (hfold _ _ _ List.nodup_nil)

/-- The keys of the rows, loop by loop. -/
private theorem keys_rows :
    (usdRows s env A ++ (zeroRows s env ++ botRows s env)).map BalanceRow.key =
      keyGrid s.serverId ((env.usdOrder (initialUsdByUserId s)).map Prod.fst) ["USD"] ++
      (keyGrid s.serverId (env.userOrder (nonBotUserIds s)) (env.symbolOrder (nonUsdActiveSymbols s)) ++
        keyGrid s.serverId (botUserIds s.bots) (s.config.symbols.filter (· ≠ "USD"))) := by
  have hrow : ∀ (symbols : List String) (userId : Int) (balance : String → Int),
      (symbols.flatMap fun symbol => [(⟨userId, s.serverId, symbol, balance symbol⟩ : BalanceRow)]).map
        BalanceRow.key = symbols.map fun symbol => (userId, symbol, s.serverId) := fun symbols userId balance => by
    rw [List.map_flatMap, List.map_eq_flatMap]
    rfl
  rw [List.map_append, List.map_append]
  congr 1
  · rw [usdRows, keyGrid, List.map_flatMap, List.flatMap_map]
    rfl
  congr 1
  · rw [zeroRows, keyGrid, List.map_flatMap]
    simp only [hrow]
  · rw [botRows, keyGrid, botUserIds, List.map_flatMap, List.flatMap_assoc]
    simp only [List.map_flatMap, hrow]

/-- No balance is inserted twice, unless a symbol is listed twice and there is a bot. -/
private theorem Planned.nodup_keys (hp : Planned s)
    (h : botUserIds s.bots ≠ [] → (s.config.symbols.filter (· ≠ "USD")).Nodup) :
    ((usdRows s env A ++ (zeroRows s env ++ botRows s env)).map BalanceRow.key).Nodup := by
  have husd : ((env.usdOrder (initialUsdByUserId s)).map Prod.fst).Nodup :=
    ((env.usdOrder_perm _).map _).nodup_iff.2 initialUsdByUserId_nodup
  have husers : (env.userOrder (nonBotUserIds s)).Nodup :=
    (env.userOrder_perm _).nodup_iff.2 ((nodup_eraseDups _).filter _)
  have hsymbols : (env.symbolOrder (nonUsdActiveSymbols s)).Nodup :=
    (env.symbolOrder_perm _).nodup_iff.2 (nodup_eraseDups _)
  have hbots : (keyGrid s.serverId (botUserIds s.bots) (s.config.symbols.filter (· ≠ "USD"))).Nodup := by
    by_cases hbots : botUserIds s.bots = []
    · rw [hbots]
      exact List.nodup_nil
    · exact keyGrid_nodup hp.distinct (h hbots)
  -- the keys of different loops differ in the symbol, or in whether the user is a bot
  rw [keys_rows, List.nodup_append, List.nodup_append]
  refine ⟨keyGrid_nodup husd (List.nodup_singleton _), ⟨keyGrid_nodup husers hsymbols, hbots, ?_⟩, ?_⟩
  · rintro key hkey _ hkey' rfl
    have huser := (mem_keyGrid.1 hkey).1
    rw [(env.userOrder_perm _).mem_iff, nonBotUserIds, List.mem_filter] at huser
    exact of_decide_eq_true huser.2 (mem_keyGrid.1 hkey').1
  · rintro key hkey _ hkey' rfl
    have husd : key.2.1 = "USD" := List.mem_singleton.1 (mem_keyGrid.1 hkey).2.1
    rcases List.mem_append.1 hkey' with hkey' | hkey'
    · have hsymbol := (mem_keyGrid.1 hkey').2.1
      rw [(env.symbolOrder_perm _).mem_iff, nonUsdActiveSymbols, List.mem_eraseDups, List.mem_filter] at hsymbol
      exact of_decide_eq_true hsymbol.2 husd
    · exact of_decide_eq_true (List.mem_filter.1 (mem_keyGrid.1 hkey').2.1).2 husd

end

/-! ### After the server is created -/

/-- The request lists a symbol twice for a bot, said of the server that it creates. -/
private theorem repeatsForBot_iff {req : HttpRequest} {w w₁ : World} {s : NewServer}
    (hopen : openServer env req w = (.ok s, w₁)) :
    RepeatsForBot req ↔ botUserIds s.bots ≠ [] ∧ ¬ (s.config.symbols.filter (· ≠ "USD")).Nodup := by
  rw [botUserIds_of_openServer hopen]
  constructor
  · rintro ⟨config, hconfig, hrepeated, hbot⟩
    cases hconfig.symm.trans (openServer_ok hopen).1
    exact ⟨hbot, hrepeated⟩
  · rintro ⟨hbot, hrepeated⟩
    exact ⟨s.config, (openServer_ok hopen).1, hrepeated, hbot⟩

/-- A new server is in the tables, and so are its members. -/
private theorem seated_of_openServer {req : HttpRequest} {w w₁ : World} {s : NewServer}
    (hopen : openServer env req w = (.ok s, w₁)) : Seated s w₁.store := by
  obtain ⟨plan, w₂, hplan, h⟩ := bind_eq_ok.1 hopen
  obtain ⟨serverId, w₃, hcreate, h⟩ := bind_eq_ok.1 h
  cases h
  have hcreated := Store.createServerWithServices_eq_some (createServerWithServices_ok hcreate)
  refine ⟨?_, List.forall_mem_cons.2 ⟨?_, fun userId huser => ?_⟩⟩
  · rw [hcreated.db.servers, List.map_append]
    exact List.mem_append_right _ List.mem_cons_self
  · rw [hcreated.users]
    exact hcreated.admin
  · refine w₁.store.allowlist_user ⟨serverId, userId⟩ ?_
    rw [hcreated.allowlist]
    exact List.mem_append_right _ (List.mem_map_of_mem huser)

/-- Whoever stops the calls after the creation of a server, it was one of them that failed from outside, or a balance
that was there. -/
private theorem hindered_of_furnish {req : HttpRequest} {w w₁ w' : World} {s : NewServer} {f : Failure}
    (hopen : openServer env req w = (.ok s, w₁)) (h : furnish env A s w₁ = (.error f, w')) :
    Hindered env req w w' := by
  have hp := planned_of_openServer hopen
  have hseated := seated_of_openServer hopen
  obtain ⟨w₂, op, done, hlog, hlast, hlate, hregistry, hdone, hcause⟩ := hp.inserts_furnish.error hseated h
  have hcall : LateCall w w' w₂.calls op := by
    obtain ⟨ops, hops, -⟩ := (openServer_early req).of_run hopen
    refine ⟨?_, ?_, hlate⟩
    · refine le_trans ?_ hlog.length_le
      rw [hops, List.length_append]
      exact Nat.le_add_right _ _
    · rw [hlast]
      exact List.getElem?_concat_length
  refine ⟨w₂.calls, op, hcall, hcause.imp_right ?_⟩
  rintro ⟨row, rest, hrows, hrefused⟩
  have hrow : row ∈ usdRows s env A ++ (zeroRows s env ++ botRows s env) := by
    rw [hrows]
    exact List.mem_append_right _ List.mem_cons_self
  obtain ⟨userId, hmember, symbol, -, hrowEq⟩ := hp.mem_rows.1 hrow
  have hseated := hseated.congr hregistry
  have hkey : row.key ∈ w₂.store.balances.map BalanceRow.key := by
    subst hrowEq
    exact Store.key_mem_of_insertBalance hseated.server (hseated.user _ hmember) hrefused
  rw [hdone, List.map_append] at hkey
  -- no balance that was there before has the id of the new server
  have hkey : row.key ∈ done.map BalanceRow.key := by
    refine (List.mem_append.1 hkey).resolve_left fun hold => ?_
    obtain ⟨r, hr, heq⟩ := List.mem_map.1 hold
    refine fresh_of_openServer hopen r hr ?_
    rw [(Prod.mk.inj (Prod.mk.inj heq).2).2, hrowEq]
  rw [repeatsForBot_iff hopen, ← Classical.not_imp]
  intro hnodup
  have hkeys : ((usdRows s env A ++ (zeroRows s env ++ botRows s env)).map BalanceRow.key).Nodup :=
    hp.nodup_keys hnodup
  rw [hrows, List.map_append, List.map_cons, List.nodup_append] at hkeys
  exact hkeys.2.2 _ hkey _ List.mem_cons_self rfl

/-- Calls that have all succeeded were not hindered. -/
private theorem not_hindered_of_furnish {req : HttpRequest} {w w₁ w' : World} {s : NewServer}
    (hopen : openServer env req w = (.ok s, w₁)) (h : furnish env A s w₁ = (.ok (), w')) :
    ¬ Hindered env req w w' := by
  have hinserts : Inserts env s _ (furnish env A s) := (planned_of_openServer hopen).inserts_furnish
  rintro ⟨call, op, ⟨hcall, hop, hlate⟩, hfails | hrepeats⟩
  · by_cases hlater : w₁.calls ≤ call
    · exact hinserts.clean h call op hlater hop hfails
    · obtain ⟨ops, hops⟩ := hinserts.grows.of_run h
      rw [← hops, List.getElem?_append_left (not_le.1 hlater)] at hop
      exact ((openServer_early req).of_run hopen).not_lateCall call op ⟨hcall, hop, hlate⟩
  · obtain ⟨hbots, hrepeated⟩ := (repeatsForBot_iff hopen).1 hrepeats
    have hkeys := w'.store.balance_key
    rw [hinserts.ok h, List.map_append, keys_rows] at hkeys
    have hgrid := (List.nodup_append.1 (List.nodup_append.1 (List.nodup_append.1 hkeys).2.1).2.1).2.1
    exact hrepeated (nodup_of_keyGrid hgrid hbots)

/-! ### Nothing or a server -/

/-- A request for a name that is taken fails. -/
private theorem handleCreateServer_of_taken {req : HttpRequest} {w : World} {config : ServerConfig}
    (hconfig : parseServerConfig req.body = .ok config)
    (htaken : config.serverName ∈ w.store.db.servers.map ServerRow.serverName) :
    ∃ f w', handleCreateServer env A req w = (.error f, w') := by
  cases hopen : openServer env req w with
  | mk r w₁ =>
    cases r with
    | error f => exact ⟨f, w₁, bind_of_error hopen _⟩
    | ok s =>
      obtain ⟨hparse, hfree, -⟩ := openServer_ok hopen
      cases hconfig.symm.trans hparse
      exact absurd htaken hfree

/-- Responses with an error leave the tables as they were exactly when the request is not hindered after its server
is created: when no call for a balance, a portfolio or a service fails from outside, and no such call comes from a
request that lists a symbol twice for a bot.  For a response with an error that says that the creation of the server
was not committed.  A request that was hindered has an error, and it fails whenever it is made again. -/
theorem creation_unchanged_iff (env : Env) (A : Arith) (req : HttpRequest) (w w' : World)
    (r : Except Failure CreateResponse) (h : handleCreateServer env A req w = (r, w')) :
    ((∀ f, r = .error f → w'.store.tables = w.store.tables) ↔ ¬ Hindered env req w w') ∧
    (∀ f, r = .error f → (Hindered env req w w' ↔ Commits env req w)) ∧
    (Hindered env req w w' → (∃ f, r = .error f) ∧
      ∀ env' log, ∃ f' w'', handleCreateServer env' A req ⟨w'.store, log⟩ = (.error f', w'')) := by
  cases hopen : openServer env req w with
  | mk r₁ w₁ =>
  cases r₁ with
  | error f =>
    cases h.symm.trans (bind_of_error hopen _)
    have hnot : ¬ Hindered env req w w' := by
      rintro ⟨call, op, hcall, -⟩
      exact ((openServer_early req).of_run hopen).not_lateCall call op hcall
    have hcommits : ¬ Commits env req w := by
      rintro ⟨s, w₁, hok⟩
      cases hopen.symm.trans hok
    exact ⟨iff_of_true (fun _ _ => openServer_error hopen) hnot, fun _ _ => iff_of_false hnot hcommits,
      fun hindered => absurd hindered hnot⟩
  | ok s =>
    have hcommits : Commits env req w := ⟨s, w₁, hopen⟩
    obtain ⟨hparse, -, hservers⟩ := openServer_ok hopen
    obtain ⟨f, rfl, hfurnish⟩ | ⟨response, w₂, rfl, hfurnish, -, hearly⟩ :=
      furnish_of_fillServer ((bind_of_ok hopen _).symm.trans h)
    · have hindered := hindered_of_furnish hopen hfurnish
      have hkeeps := (planned_of_openServer hopen).inserts_furnish.keeps.of_run hfurnish
      have hdb : w'.store.db = w₁.store.db := congrArg Prod.fst hkeeps
      refine ⟨iff_of_false (fun hsame => ?_) (not_not.2 hindered), fun _ _ => iff_of_true hindered hcommits,
        fun _ => ⟨⟨f, rfl⟩, fun env' log => handleCreateServer_of_taken hparse ?_⟩⟩
      · -- there is one server more
        have heq : w'.store.db.servers = w.store.db.servers := congrArg Prod.fst (hsame f rfl)
        rw [hdb, hservers] at heq
        exact absurd (List.append_right_eq_self.1 heq) (List.cons_ne_nil _ _)
      · show s.config.serverName ∈ w'.store.db.servers.map ServerRow.serverName
        rw [hdb, hservers, List.map_append]
        exact List.mem_append_right _ List.mem_cons_self
    · have hnot : ¬ Hindered env req w w' := by
        rintro ⟨call, op, hcall, hcause⟩
        exact not_hindered_of_furnish hopen hfurnish ⟨call, op, hearly.lateCall hcall, hcause⟩
      exact ⟨iff_of_true nofun hnot, nofun, fun hindered => absurd hindered hnot⟩

/-- The allowlist names a user that does not exist. -/
theorem creation_unchanged_sample : ∃ w',
    handleCreateServer (calmEnv fun _ _ => none) .machine (sampleRequest ["GME"] ["ann", "bob"] 1) sampleWorld =
      (.error (.error "User not found: bob"), w') ∧
    w'.store.tables = sampleWorld.store.tables := by
  have hrun : (sampleRun (fun _ _ => none) (sampleRequest ["GME"] ["ann", "bob"] 1)).1 =
      .error (.error "User not found: bob") := by decide +kernel
  have hcalls : (sampleRun (fun _ _ => none) (sampleRequest ["GME"] ["ann", "bob"] 1)).2.log.all
      (fun op => !decide op.Late) = true := by decide +kernel
  have heq := eq_of_fst hrun
  refine ⟨_, heq, (creation_unchanged_iff _ _ _ _ _ _ heq).1.2 ?_ _ rfl⟩
  rintro ⟨call, op, ⟨-, hop, hlate⟩, -⟩
  have hnot := List.all_eq_true.1 hcalls op (List.mem_of_getElem? hop)
  simp [hlate] at hnot

private theorem exists_world {r : Except Failure CreateResponse × World} {f : Failure} {P : World → Prop}
    (h : r.1 = .error f) (hP : P r.2) : ∃ w', r = (.error f, w') ∧ P w' :=
  ⟨r.2, eq_of_fst h, hP⟩

/-- The first service cannot be started, or nothing fails from outside but a symbol is listed twice and there is a
bot: both times the server stays, with its services, its allowlist and some balances. -/
theorem creation_leaves_rows :
    (∃ w', handleCreateServer (calmEnv fun _ _ => some "refused") .machine (sampleRequest ["GME"] ["ann"] 0)
        sampleWorld = (.error (.error "refused"), w') ∧
      w'.store.db.servers = [⟨1, "alpha"⟩] ∧ w'.store.allowlist = [⟨1, 1⟩] ∧ w'.store.db.services.length = 5 ∧
      w'.store.balances = [⟨1, 1, "USD", 1000000000⟩, ⟨1, 1, "GME", 0⟩] ∧
      w'.store.tables ≠ sampleWorld.store.tables) ∧
    ∃ w', handleCreateServer (calmEnv fun _ _ => none) .machine (sampleRequest ["GME", "GME"] ["ann"] 1) sampleWorld =
        (.error (.error "Error inserting balance: "), w') ∧
      w'.store.db.servers = [⟨1, "alpha"⟩] ∧ w'.store.tables ≠ sampleWorld.store.tables := by
  have hrun : (sampleRun (fun _ _ => some "refused") (sampleRequest ["GME"] ["ann"] 0)).1 =
      .error (.error "refused") := by decide +kernel
  have hrun' : (sampleRun (fun _ _ => none) (sampleRequest ["GME", "GME"] ["ann"] 1)).1 =
      .error (.error "Error inserting balance: ") := by decide +kernel
  have hrows : (sampleRun (fun _ _ => some "refused") (sampleRequest ["GME"] ["ann"] 0)).2.store.db.servers =
      [⟨1, "alpha"⟩] := by decide +kernel
  have hrows' : (sampleRun (fun _ _ => none) (sampleRequest ["GME", "GME"] ["ann"] 1)).2.store.db.servers =
      [⟨1, "alpha"⟩] := by decide +kernel
  have hne : ∀ st : Store, st.db.servers = [⟨1, "alpha"⟩] → st.tables ≠ sampleWorld.store.tables := fun st h heq =>
    List.cons_ne_nil _ _ (h.symm.trans (congrArg Prod.fst heq))
  refine ⟨exists_world (r := sampleRun _ _) hrun ⟨hrows, ?_, ?_, ?_, hne _ hrows⟩,
    exists_world (r := sampleRun _ _) hrun' ⟨hrows', hne _ hrows'⟩⟩ <;> decide +kernel

end Elsa.Backend
