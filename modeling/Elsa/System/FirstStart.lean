import Elsa.Backend.InitialBalances
import Elsa.System.Restart

/-!
# The first start of a server

`handle_create_server` writes the tables of a new server, and the order manager of the server reads them.  The members
of the server are the users of its allowlist and its admin, on both sides.  So the order manager starts with all of
them, each with the initial balance of dollars and of each symbol of the request, unless the request names the empty
symbol (`first_start`).  With these rows the tables are full, which is what restarts need.
-/

namespace Elsa

open Base Effect Backend

/-! ### The tables of a new server -/

section

variable {env : Env} {A : Arith} {req : HttpRequest} {w w₁ w₂ : World} {s : NewServer}

/-- The transaction that has created the server. -/
private theorem created_of_openServer (h : openServer env req w = (.ok s, w₁)) :
    ∃ st, Store.ServerCreated s.serverId s.insert st w₁.store := by
  obtain ⟨plan, w₂, -, h⟩ := bind_eq_ok.1 h
  obtain ⟨serverId, w₃, hcreate, h⟩ := bind_eq_ok.1 h
  cases h
  exact ⟨w₂.store, Store.createServerWithServices_eq_some (createServerWithServices_ok hcreate)⟩

/-- The allowlist of a new server is that of the request. -/
private theorem mem_allowlist_of_openServer (h : openServer env req w = (.ok s, w₁)) (userId : Int) :
    ⟨s.serverId, userId⟩ ∈ w₁.store.allowlist ↔ userId ∈ s.allowlistUserIds := by
  obtain ⟨st, hcreated⟩ := created_of_openServer h
  rw [hcreated.allowlist, List.mem_append]
  constructor
  · rintro (hold | hnew)
    · exact absurd (st.allowlist_server _ hold) hcreated.db.insertable.1
    · obtain ⟨userId', hmem, heq⟩ := List.mem_map.1 hnew
      cases heq
      exact hmem
  · intro hmem
    exact .inr (List.mem_map_of_mem hmem)

/-- The balances leave the servers, their columns, the users and the allowlist alone. -/
private theorem registry_of_insertBalances (hopen : openServer env req w = (.ok s, w₁))
    (hfill : insertBalances env A s w₁ = (.ok (), w₂)) : w₂.store.registry = w₁.store.registry :=
  (planned_of_openServer hopen).inserts_insertBalances.keeps.of_run hfill

/-- The rows of a new server are its members and their initial balances. -/
private theorem row_of_newServer (hopen : openServer env req w = (.ok s, w₁))
    (hfill : insertBalances env A s w₁ = (.ok (), w₂)) (userId : Int) (symbol : String) (b : Int) :
    ⟨userId, s.serverId, symbol, b⟩ ∈ w₂.store.balances ↔
      userId ∈ members s ∧ symbol ∈ "USD" :: s.config.symbols ∧ b = initialBalance env s userId symbol := by
  have hp := planned_of_openServer hopen
  rw [hp.inserts_insertBalances.ok hfill, List.mem_append, hp.mem_rows]
  constructor
  · rintro (hold | ⟨userId', hmember, symbol', hsymbol, heq⟩)
    · exact absurd rfl (fresh_of_openServer hopen _ hold)
    · cases heq
      exact ⟨hmember, hsymbol, rfl⟩
  · rintro ⟨hmember, hsymbol, rfl⟩
    exact .inr ⟨userId, hmember, symbol, hsymbol, rfl⟩

/-! ### What is loaded -/

private theorem isLoaded_of_newServer (hopen : openServer env req w = (.ok s, w₁))
    (hfill : insertBalances env A s w₁ = (.ok (), w₂)) (userId : Int) (u symbol : String) (b : Int) :
    IsLoaded w₂.store s.serverId s.callerId userId u symbol b ↔ (userId ∈ members s ∧ w₂.store.HasId u userId) ∧
      symbol ∈ "USD" :: s.config.symbols ∧ b = initialBalance env s userId symbol := by
  constructor
  · intro h
    obtain ⟨hmember, hrow⟩ := (row_of_newServer hopen hfill userId symbol b).1 h.row
    exact ⟨⟨hmember, h.user⟩, hrow⟩
  · rintro ⟨⟨hmember, huser⟩, hrow⟩
    refine ⟨huser, ?_, (row_of_newServer hopen hfill userId symbol b).2 ⟨hmember, hrow⟩⟩
    have hallowlist : w₂.store.allowlist = w₁.store.allowlist :=
      congrArg (fun r => r.2.2.2) (registry_of_insertBalances hopen hfill)
    rw [hallowlist, mem_allowlist_of_openServer hopen]
    exact (List.mem_cons.1 hmember).symm

/-- The row of a new server names its admin, and the admin is a user. -/
private theorem hosted_of_newServer (hopen : openServer env req w = (.ok s, w₁))
    (hfill : insertBalances env A s w₁ = (.ok (), w₂)) (hnames : w₂.store.NulFree) :
    Hosted w₂.store s.config.serverName s.serverId s.callerId := by
  have hregistry := registry_of_insertBalances hopen hfill
  have hdb : w₂.store.db = w₁.store.db := congrArg Prod.fst hregistry
  have hcolumns : w₂.store.columns = w₁.store.columns := congrArg (fun r => r.2.1) hregistry
  obtain ⟨st, hcreated⟩ := created_of_openServer hopen
  refine ⟨?_, ?_, ?_, hnames⟩
  · rw [hdb, (openServer_ok hopen).2.2]
    exact List.mem_append_right _ (List.mem_singleton_self _)
  · rw [hcolumns, hcreated.columns, Function.update_self]
    rfl
  · -- the admin has a row of dollars, and rows belong to users
    exact w₂.store.balance_user _
      ((row_of_newServer hopen hfill s.callerId "USD" _).2 ⟨List.mem_cons_self, List.mem_cons_self, rfl⟩)

end

/-- The order manager of a new server starts if and only if no symbol of the request is empty.  Then its users are the
members of the server, and each of them has the initial balance of dollars and of each symbol of the request, and no
other balance.  The tables are full if the order manager has no other symbols. -/
theorem first_start {env : Env} {A : Arith} {req : HttpRequest} {w w₁ w₂ : World} {s : NewServer}
    (hopen : openServer env req w = (.ok s, w₁)) (hfill : insertBalances env A s w₁ = (.ok (), w₂))
    (hnames : w₂.store.NulFree) (what : String) (active : ActiveSymbols) :
    ((∃ cfg balances, startUp A w₂.store what s.config.serverName active = .ok (cfg, balances)) ↔
      "" ∉ s.config.symbols) ∧
    ∀ cfg balances, startUp A w₂.store what s.config.serverName active = .ok (cfg, balances) →
      (∀ u userId, cfg.usernameUserIdMap u = some userId ↔ userId ∈ members s ∧ w₂.store.HasId u userId) ∧
      (∀ u userId, cfg.usernameUserIdMap u = some userId → ∀ symbol, balances.entry u symbol =
        if symbol ∈ "USD" :: s.config.symbols then some (initialBalance env s userId symbol) else none) ∧
      (active.symbols ⊆ s.config.symbols → Running.Full cfg w₂.store) := by
  have hosted := hosted_of_newServer hopen hfill hnames
  have hloaded := isLoaded_of_newServer hopen hfill
  obtain ⟨hstarts, hspec⟩ := startUp_spec A what active hosted
  refine ⟨hstarts.trans ⟨fun hne hempty => ?_, fun hempty userId u symbol b hload => ?_⟩, fun cfg balances hstart =>
    ?_⟩
  · obtain ⟨u, hu, hid⟩ := List.mem_map.1 hosted.user
    have hadmin : w₂.store.HasId u.username s.callerId := hid ▸ hu
    exact hne _ _ _ _ ((hloaded s.callerId u.username "" _).2
      ⟨⟨List.mem_cons_self, hadmin⟩, List.mem_cons_of_mem _ hempty, rfl⟩) rfl
  · rintro rfl
    obtain ⟨-, hsymbol, -⟩ := (hloaded userId u "" b).1 hload
    exact hempty ((List.mem_cons.1 hsymbol).resolve_left (by decide))
  · obtain ⟨-, hactive, hwith⟩ := hspec cfg balances hstart
    have husers : ∀ u userId, cfg.usernameUserIdMap u = some userId ↔
        userId ∈ members s ∧ w₂.store.HasId u userId := by
      intro u userId
      rw [hwith.user]
      constructor
      · rintro ⟨symbol, b, h⟩
        exact ((hloaded userId u symbol b).1 h).1
      · intro h
        exact ⟨"USD", _, (hloaded userId u "USD" _).2 ⟨h, List.mem_cons_self, rfl⟩⟩
    refine ⟨husers, fun u userId hu symbol => ?_, fun hsub u userId hu symbol hsymbol => ?_⟩
    · refine Option.ext fun b => ?_
      rw [hwith.entry]
      constructor
      · rintro ⟨userId', h⟩
        obtain ⟨⟨-, huser⟩, hsymbol, rfl⟩ := (hloaded userId' u symbol b).1 h
        rw [if_pos hsymbol, w₂.store.hasId_biUnique.2 huser ((husers u userId).1 hu).2]
      · intro h
        split at h
        · rename_i hsymbol
          cases h
          exact ⟨userId, (hloaded userId u symbol _).2 ⟨(husers u userId).1 hu, hsymbol, rfl⟩⟩
        · cases h
    · rw [hactive] at hsymbol
      rw [hwith.server]
      have hmem : symbol ∈ "USD" :: s.config.symbols := List.mem_cons.2 (hsymbol.imp id fun h => hsub h)
      exact ⟨_, (row_of_newServer hopen hfill userId symbol _).2 ⟨((husers u userId).1 hu).1, hmem, rfl⟩⟩

/-- The server of `ann` with two market makers: `ann` starts with no shares, a market maker with its inventory. -/
theorem first_start_sample : ∃ s w₁ w₂ cfg balances,
    openServer (calmEnv fun _ _ => none) (sampleRequest ["GME", "USD"] ["ann"] 2) sampleWorld = (.ok s, w₁) ∧
    insertBalances (calmEnv fun _ _ => none) .machine s w₁ = (.ok (), w₂) ∧
    startUp .machine w₂.store "" s.config.serverName gmeOnly = .ok (cfg, balances) ∧
    cfg.usernameUserIdMap "ann" = some 1 ∧ balances.entry "ann" "GME" = some 0 ∧ Running.Full cfg w₂.store := by
  have hrun : ∃ s w₁, openServer (calmEnv fun _ _ => none) (sampleRequest ["GME", "USD"] ["ann"] 2) sampleWorld =
      (.ok s, w₁) ∧ SampleServer s w₁ ∧ ⟨1, "ann"⟩ ∈ w₁.store.users ∧
        ∀ u ∈ w₁.store.users, CString.NulFree u.username :=
    exists_of_run (by decide +kernel)
  obtain ⟨s, w₁, hopen, ⟨-, hmembers, hsymbols, hann, -, hok⟩, huser, hnames⟩ := hrun
  have hfill := eq_of_fst hok
  have husers : (insertBalances (calmEnv fun _ _ => none) .machine s w₁).2.store.users = w₁.store.users :=
    congrArg (fun r => r.2.2.1) (registry_of_insertBalances hopen hfill)
  obtain ⟨hstarts, hspec⟩ := first_start hopen hfill (fun u hu => hnames u (husers ▸ hu)) "" gmeOnly
  obtain ⟨cfg, balances, hstart⟩ := hstarts.2 (by rw [hsymbols]; decide)
  obtain ⟨hids, hentries, hfull⟩ := hspec cfg balances hstart
  have hid : cfg.usernameUserIdMap "ann" = some 1 := by
    refine (hids "ann" 1).2 ⟨by rw [hmembers]; decide, ?_⟩
    rw [Store.HasId, husers]
    exact huser
  refine ⟨s, w₁, _, cfg, balances, hopen, hfill, hstart, hid, ?_, hfull (by rw [hsymbols]; decide)⟩
  rw [hentries "ann" 1 hid, if_pos (by rw [hsymbols]; decide), hann]

end Elsa
