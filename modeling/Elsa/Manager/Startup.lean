import Elsa.Backend.Configuration
import Elsa.Manager.OrderManager

/-!
# The start of the order manager

`OrderManager::init` reads the members of its server, which are the users of the allowlist and the admin, with their
balances.  `init_balance_checker` enters each balance with `update_balance`, and the ids of the users with the first
balance of each.  The row of the server gives its id.

The keys of the tables make each entry new, so that no balance is added to another one.  What is loaded is what the
tables hold about the members of the server, and the only thing that can go wrong is a balance with the empty symbol
(`startUp_spec`).
-/

namespace Elsa

open Base Backend

/-- A user of the server, with the symbols and balances of all rows.  The name is read as a text that ends at its
first zero byte. -/
structure UserBalanceInfo where
  userId : Int
  username : String
  balances : List (String × Int)
  nulFree : CString.NulFree username

/-- A balance and the user that it belongs to. -/
structure LoadRow where
  userId : Int
  username : String
  symbol : String
  balance : Int
  nulFree : CString.NulFree username

def LoadRow.key (r : LoadRow) : String × String := (r.username, r.symbol)

def UserBalanceInfo.rows (info : UserBalanceInfo) : List LoadRow :=
  info.balances.map fun b => ⟨info.userId, info.username, b.1, b.2, info.nulFree⟩

/-! ### Reading -/

namespace Backend.Store

/-- The users of the allowlist, and the admin if they are not among them. -/
def memberIds (st : Store) (serverId adminId : Int) : List Int :=
  let userIds := (st.allowlist.filter fun r => r.serverId = serverId).map AllowlistRow.userId
  if adminId ∈ userIds then userIds else userIds ++ [adminId]

/-- The balances of a user on a server. -/
def userBalances (st : Store) (serverId userId : Int) : List (String × Int) :=
  (st.balances.filter fun r => r.userId = userId ∧ r.serverId = serverId).map fun r => (r.symbol, r.balance)

/-- The users of a server; one that is not found is skipped. -/
def membersOf (st : Store) (serverId adminId : Int) : List UserBalanceInfo :=
  (st.memberIds serverId adminId).filterMap fun userId =>
    (st.users.find? fun u => u.userId = userId).map fun u : UserRow =>
      { userId, username := CString.upToNul u.username, balances := st.userBalances serverId userId
        nulFree := CString.upToNul_nulFree u.username }

/-- `get_all_users_balances_for_server`; `what` is the text of an exception. -/
def getAllUsersBalancesForServer (st : Store) (what serverName : String) : Except String (List UserBalanceInfo) :=
  match st.db.servers.find? fun sv => sv.serverName = serverName with
  | none => .error ("Server not found: " ++ serverName)
  | some sv =>
    match (st.columns sv.serverId).adminId with
    | none => .error ("Error getting users and balances: " ++ what)
    | some adminId => .ok (st.membersOf sv.serverId adminId)

end Backend.Store

/-! ### Loading -/

/-- What `init_balance_checker` fills. -/
structure Loaded where
  balanceChecker : BalanceChecker
  usernameUserIdMap : String → Option Int
  nulFree : ∀ u, usernameUserIdMap u ≠ none → CString.NulFree u

def Loaded.empty : Loaded := ⟨fun _ => none, fun _ => none, fun _ h => absurd rfl h⟩

/-- The user of a balance is entered, unless they are there. -/
def Loaded.addUser (l : Loaded) (r : LoadRow) : Loaded where
  balanceChecker := l.balanceChecker
  usernameUserIdMap := emplace l.usernameUserIdMap r.username r.userId
  nulFree u hu := by
    cases hbound : l.usernameUserIdMap r.username with
    | some userId =>
      rw [emplace_of_bound hbound] at hu
      exact l.nulFree u hu
    | none =>
      rw [emplace_of_free hbound] at hu
      split at hu
      · rename_i heq
        exact heq ▸ r.nulFree
      · exact l.nulFree u hu

def loadBalance (A : Arith) (l : Loaded) (r : LoadRow) : Except Fault Loaded := do
  let balanceChecker ← l.balanceChecker.updateBalance A r.username r.symbol r.balance
  return { l.addUser r with balanceChecker }

/-- The loops over the users and their balances, as one over all balances. -/
def initBalanceChecker (A : Arith) (infos : List UserBalanceInfo) : Except Fault Loaded := do
  require (infos ≠ []) .assertion
  (infos.flatMap UserBalanceInfo.rows).foldlM (loadBalance A) .empty

/-- Why the process ends. -/
inductive StartError
  | database (text : String)
  | fault (f : Fault)

/-- The symbols that the order manager is started with. -/
structure ActiveSymbols where
  symbols : List String
  nulFree : ∀ symbol ∈ symbols, CString.NulFree symbol

/-- `OrderManager::init` after the connections are open: the configuration and the balances that `run` starts with. -/
def startUp (A : Arith) (st : Store) (what serverName : String) (active : ActiveSymbols) :
    Except StartError (Config × BalanceChecker) := do
  let infos ← (st.getAllUsersBalancesForServer what serverName).mapError .database
  let loaded ← (initBalanceChecker A infos).mapError .fault
  match st.findServer serverName with
  | none => .error (.database ("Failed to find Server Info of server " ++ serverName))
  | some srv =>
    return (⟨serverName, srv.serverId, active.symbols, loaded.usernameUserIdMap, active.nulFree, loaded.nulFree⟩,
      loaded.balanceChecker)

/-! ### What is read -/

section

variable {st : Store} {serverId adminId : Int}

private theorem mem_memberIds {userId : Int} :
    userId ∈ st.memberIds serverId adminId ↔ ⟨serverId, userId⟩ ∈ st.allowlist ∨ userId = adminId := by
  have hallowed : userId ∈ (st.allowlist.filter fun r => r.serverId = serverId).map AllowlistRow.userId ↔
      ⟨serverId, userId⟩ ∈ st.allowlist := by
    simp only [List.mem_map, List.mem_filter, decide_eq_true_eq]
    constructor
    · rintro ⟨r, ⟨hr, rfl⟩, rfl⟩
      exact hr
    · intro h
      exact ⟨_, ⟨h, rfl⟩, rfl⟩
  unfold Store.memberIds
  dsimp only
  split
  · rename_i hadmin
    rw [hallowed]
    refine ⟨.inl, ?_⟩
    rintro (h | rfl)
    · exact h
    · exact hallowed.1 hadmin
  · rw [List.mem_append, List.mem_singleton, hallowed]

private theorem nodup_memberIds (st : Store) (serverId adminId : Int) : (st.memberIds serverId adminId).Nodup := by
  have hnodup : ((st.allowlist.filter fun r => r.serverId = serverId).map AllowlistRow.userId).Nodup := by
    refine nodup_map_filter st.allowlist_key fun r r' hr hr' heq => ?_
    exact Prod.ext ((of_decide_eq_true hr).trans (of_decide_eq_true hr').symm) heq
  unfold Store.memberIds
  dsimp only
  split
  · exact hnodup
  · rename_i hadmin
    refine List.nodup_append.2 ⟨hnodup, List.nodup_singleton _, ?_⟩
    rintro x hx y hy rfl
    exact hadmin (List.mem_singleton.1 hy ▸ hx)

private theorem mem_userBalances {userId : Int} {b : String × Int} :
    b ∈ st.userBalances serverId userId ↔ ⟨userId, serverId, b.1, b.2⟩ ∈ st.balances := by
  simp only [Store.userBalances, List.mem_map, List.mem_filter, decide_eq_true_eq]
  constructor
  · rintro ⟨r, ⟨hr, rfl, rfl⟩, rfl⟩
    exact hr
  · intro h
    exact ⟨_, ⟨h, rfl, rfl⟩, rfl⟩

private theorem nodup_userBalances (st : Store) (serverId userId : Int) :
    ((st.userBalances serverId userId).map Prod.fst).Nodup := by
  rw [Store.userBalances, List.map_map]
  refine nodup_map_filter st.balance_key fun r r' hr hr' heq => ?_
  obtain ⟨huser, hserver⟩ := of_decide_eq_true hr
  obtain ⟨huser', hserver'⟩ := of_decide_eq_true hr'
  exact Prod.ext (huser.trans huser'.symm) (Prod.ext heq (hserver.trans hserver'.symm))

/-- The rows of all members. -/
def Backend.Store.loadRows (st : Store) (serverId adminId : Int) : List LoadRow :=
  (st.membersOf serverId adminId).flatMap UserBalanceInfo.rows

/-- No text of the database holds a zero byte. -/
def Backend.Store.NulFree (st : Store) : Prop := ∀ u ∈ st.users, CString.NulFree u.username

/-- A balance that is loaded belongs to a member of the server. -/
structure IsLoaded (st : Store) (serverId adminId userId : Int) (username symbol : String) (balance : Int) :
    Prop where
  user : st.HasId username userId
  member : ⟨serverId, userId⟩ ∈ st.allowlist ∨ userId = adminId
  row : ⟨userId, serverId, symbol, balance⟩ ∈ st.balances

private theorem mem_membersOf (hnames : st.NulFree) {info : UserBalanceInfo} :
    info ∈ st.membersOf serverId adminId ↔ st.HasId info.username info.userId ∧
      (⟨serverId, info.userId⟩ ∈ st.allowlist ∨ info.userId = adminId) ∧
      info.balances = st.userBalances serverId info.userId := by
  simp only [Store.membersOf, List.mem_filterMap, Option.map_eq_some_iff, mem_memberIds]
  constructor
  · rintro ⟨userId, hmember, u, hu, rfl⟩
    have hid : u.userId = userId := by simpa using List.find?_some hu
    subst hid
    have hmem := List.mem_of_find?_eq_some hu
    refine ⟨?_, hmember, rfl⟩
    dsimp only
    rw [CString.upToNul_of_nulFree (hnames u hmem)]
    exact hmem
  · obtain ⟨userId, username, balances, hfree⟩ := info
    dsimp only
    rintro ⟨huser, hmember, rfl⟩
    refine ⟨userId, hmember, ⟨userId, username⟩, find?_of_nodup_map st.user_key huser rfl, ?_⟩
    simp only [CString.upToNul_of_nulFree hfree]

private theorem mem_loadRows (hnames : st.NulFree) {r : LoadRow} :
    r ∈ st.loadRows serverId adminId ↔ IsLoaded st serverId adminId r.userId r.username r.symbol r.balance := by
  simp only [Store.loadRows, List.mem_flatMap, mem_membersOf hnames, UserBalanceInfo.rows, List.mem_map]
  constructor
  · rintro ⟨info, ⟨huser, hmember, hbalances⟩, b, hb, rfl⟩
    rw [hbalances] at hb
    exact ⟨huser, hmember, mem_userBalances.1 hb⟩
  · intro h
    exact ⟨⟨r.userId, r.username, st.userBalances serverId r.userId, r.nulFree⟩, ⟨h.user, h.member, rfl⟩,
      (r.symbol, r.balance), mem_userBalances.2 h.row, rfl⟩

/-- No two rows are about the same user and symbol. -/
private theorem nodup_loadRows (hnames : st.NulFree) (serverId adminId : Int) :
    ((st.loadRows serverId adminId).map LoadRow.key).Nodup := by
  rw [Store.loadRows, List.map_flatMap, List.nodup_flatMap]
  refine ⟨fun info hinfo => ?_, ?_⟩
  · obtain ⟨-, -, hbalances⟩ := (mem_membersOf hnames).1 hinfo
    have hkeys : info.rows.map LoadRow.key =
        (info.balances.map Prod.fst).map fun symbol => (info.username, symbol) := by
      simp [UserBalanceInfo.rows, LoadRow.key]
    rw [hkeys, hbalances]
    exact (nodup_userBalances st serverId info.userId).map fun s s' h => (Prod.mk.inj h).2
  · refine List.pairwise_filterMap.2 ((nodup_memberIds st serverId adminId).imp
      fun {id id'} hne info hinfo info' hinfo' => ?_)
    obtain ⟨u, hu, rfl⟩ := Option.map_eq_some_iff.1 hinfo
    obtain ⟨u', hu', rfl⟩ := Option.map_eq_some_iff.1 hinfo'
    have hid : u.userId = id := by simpa using List.find?_some hu
    have hid' : u'.userId = id' := by simpa using List.find?_some hu'
    have hmem := List.mem_of_find?_eq_some hu
    have hmem' := List.mem_of_find?_eq_some hu'
    -- different users have different names
    have hdiffer : u.username ≠ u'.username := fun heq => by
      have hsame := List.inj_on_of_nodup_map st.user_name hmem hmem' heq
      exact hne (hid.symm.trans ((congrArg UserRow.userId hsame).trans hid'))
    intro k hk hk'
    simp only [UserBalanceInfo.rows, List.mem_map, LoadRow.key, CString.upToNul_of_nulFree (hnames u hmem),
      CString.upToNul_of_nulFree (hnames u' hmem')] at hk hk'
    obtain ⟨_, ⟨b, -, rfl⟩, rfl⟩ := hk
    obtain ⟨_, ⟨b', -, rfl⟩, heq⟩ := hk'
    exact hdiffer (Prod.mk.inj heq).1.symm

end

/-! ### What is loaded -/

/-- The balances and the ids are those of the rows seen. -/
structure Loaded.Holds (seen : LoadRow → Prop) (l : Loaded) : Prop where
  entry : ∀ u symbol b, l.balanceChecker.entry u symbol = some b ↔
    ∃ r, seen r ∧ r.username = u ∧ r.symbol = symbol ∧ r.balance = b
  user : ∀ u userId, l.usernameUserIdMap u = some userId ↔ ∃ r, seen r ∧ r.username = u ∧ r.userId = userId

section

variable {A : Arith} {l : Loaded} {seen : LoadRow → Prop}

private theorem Loaded.holds_empty : Loaded.empty.Holds fun _ => False := by
  refine ⟨fun u symbol b => ?_, fun u userId => ?_⟩
  · simp [empty, BalanceChecker.entry]
  · simp [empty]

/-- A user who is there has the id that they are entered with. -/
private theorem Loaded.addUser_apply {r : LoadRow} (h : ∀ userId, l.usernameUserIdMap r.username = some userId →
    userId = r.userId) (u : String) : (l.addUser r).usernameUserIdMap u = if u = r.username then
    some r.userId else l.usernameUserIdMap u := by
  unfold addUser
  dsimp only
  cases hbound : l.usernameUserIdMap r.username with
  | none => rw [emplace_of_free hbound]
  | some userId =>
    rw [emplace_of_bound hbound]
    split
    · rename_i heq
      rw [heq, hbound, h userId hbound]
    · rfl

/-- One more row, about a user and a symbol that no row was about. -/
theorem Loaded.Holds.load (h : l.Holds seen) {r : LoadRow} (hfresh : ∀ r', seen r' → r'.key ≠ r.key)
    (hids : ∀ r', seen r' → r'.username = r.username → r'.userId = r.userId) (hsymbol : r.symbol ≠ "") :
    ∃ l', loadBalance A l r = .ok l' ∧ l'.Holds fun r' => r' = r ∨ seen r' := by
  have hnone : l.balanceChecker.entry r.username r.symbol = none := by
    refine Option.eq_none_iff_forall_ne_some.2 fun b hb => ?_
    obtain ⟨r', hseen, hname, hsym, -⟩ := (h.entry _ _ _).1 hb
    exact hfresh r' hseen (Prod.ext hname hsym)
  have hupdate : l.balanceChecker.updateBalance A r.username r.symbol r.balance =
      .ok (l.balanceChecker.updated A r.username r.symbol r.balance) :=
    BalanceChecker.updateBalance_eq_ok_iff.2 ⟨hsymbol, fun x hx => absurd (hnone.symm.trans hx) (by simp), rfl⟩
  have hnew : l.balanceChecker.newBalance A r.username r.symbol r.balance = r.balance := by
    rw [BalanceChecker.newBalance, hnone]
  have hbound : ∀ userId, l.usernameUserIdMap r.username = some userId → userId = r.userId := fun userId hid => by
    obtain ⟨r', hseen, hname, rfl⟩ := (h.user _ _).1 hid
    exact hids r' hseen hname
  refine ⟨{ l.addUser r with balanceChecker := l.balanceChecker.updated A r.username r.symbol r.balance }, ?_, ?_, ?_⟩
  · rw [loadBalance, hupdate]
    rfl
  · intro u symbol b
    dsimp only
    rw [BalanceChecker.entry_updated, hnew]
    split
    · rename_i hkey
      obtain ⟨rfl, rfl⟩ := hkey
      constructor
      · intro hb
        exact ⟨r, .inl rfl, rfl, rfl, Option.some.inj hb⟩
      · rintro ⟨r', rfl | hseen, hname, hsym, rfl⟩
        · rfl
        · exact (hfresh r' hseen (Prod.ext hname hsym)).elim
    · rename_i hkey
      rw [h.entry]
      constructor
      · rintro ⟨r', hseen, hrow⟩
        exact ⟨r', .inr hseen, hrow⟩
      · rintro ⟨r', rfl | hseen, hrow⟩
        · exact absurd ⟨hrow.1.symm, hrow.2.1.symm⟩ hkey
        · exact ⟨r', hseen, hrow⟩
  · intro u userId
    dsimp only
    rw [addUser_apply hbound]
    split
    · rename_i hu
      subst hu
      constructor
      · intro hid
        exact ⟨r, .inl rfl, rfl, Option.some.inj hid⟩
      · rintro ⟨r', rfl | hseen, hname, rfl⟩
        · rfl
        · exact congrArg some (hids r' hseen hname).symm
    · rename_i hu
      rw [h.user]
      constructor
      · rintro ⟨r', hseen, hrow⟩
        exact ⟨r', .inr hseen, hrow⟩
      · rintro ⟨r', rfl | hseen, hrow⟩
        · exact absurd hrow.1.symm hu
        · exact ⟨r', hseen, hrow⟩

private theorem symbol_ne_of_loadBalance {l' : Loaded} {r : LoadRow} (h : loadBalance A l r = .ok l') :
    r.symbol ≠ "" := by
  obtain ⟨bc, hbc, -⟩ := bind_eq_ok.1 h
  exact (BalanceChecker.updateBalance_eq_ok_iff.1 hbc).1

/-- Rows about different users or symbols are all loaded, unless a symbol is empty. -/
private theorem Loaded.Holds.loadAll {rows : List LoadRow} (h : l.Holds seen) (hkeys : (rows.map LoadRow.key).Nodup)
    (hfresh : ∀ r ∈ rows, ∀ r', seen r' → r'.key ≠ r.key)
    (hids : ∀ r ∈ rows, ∀ r', r' ∈ rows ∨ seen r' → r'.username = r.username → r'.userId = r.userId)
    (hsymbols : ∀ r ∈ rows, r.symbol ≠ "") :
    ∃ l', rows.foldlM (loadBalance A) l = .ok l' ∧ l'.Holds fun r => r ∈ rows ∨ seen r := by
  induction rows generalizing l seen with
  | nil => exact ⟨l, rfl, by simpa using h⟩
  | cons r rows ih =>
    rw [List.map_cons, List.nodup_cons] at hkeys
    rw [List.forall_mem_cons] at hsymbols
    obtain ⟨l₁, hload, h₁⟩ := h.load (hfresh r List.mem_cons_self)
      (fun r' hseen => hids r List.mem_cons_self r' (.inr hseen)) hsymbols.1
    have hfresh₁ : ∀ r₂ ∈ rows, ∀ r', r' = r ∨ seen r' → r'.key ≠ r₂.key := by
      rintro r₂ hr₂ r' (rfl | hseen)
      · exact fun heq => hkeys.1 (heq ▸ List.mem_map_of_mem hr₂)
      · exact hfresh r₂ (List.mem_cons_of_mem r hr₂) r' hseen
    have hids₁ : ∀ r₂ ∈ rows, ∀ r', r' ∈ rows ∨ r' = r ∨ seen r' → r'.username = r₂.username →
        r'.userId = r₂.userId := by
      rintro r₂ hr₂ r' (hr' | rfl | hseen)
      · exact hids r₂ (List.mem_cons_of_mem r hr₂) r' (.inl (List.mem_cons_of_mem r hr'))
      · exact hids r₂ (List.mem_cons_of_mem _ hr₂) r' (.inl List.mem_cons_self)
      · exact hids r₂ (List.mem_cons_of_mem r hr₂) r' (.inr hseen)
    obtain ⟨l', hrest, h'⟩ := ih h₁ hkeys.2 hfresh₁ hids₁ hsymbols.2
    refine ⟨l', ?_, ?_⟩
    · rw [List.foldlM_cons, hload]
      exact hrest
    · have hsame : (fun r' => r' ∈ r :: rows ∨ seen r') = fun r' => r' ∈ rows ∨ r' = r ∨ seen r' := by
        funext r'
        rw [List.mem_cons]
        exact propext (by tauto)
      rw [hsame]
      exact h'

private theorem symbols_ne_of_foldlM {rows : List LoadRow} {l' : Loaded}
    (h : rows.foldlM (loadBalance A) l = .ok l') : ∀ r ∈ rows, r.symbol ≠ "" := by
  induction rows generalizing l with
  | nil => exact fun r hr => absurd hr List.not_mem_nil
  | cons r rows ih =>
    rw [List.foldlM_cons] at h
    obtain ⟨l₁, hload, hrest⟩ := bind_eq_ok.1 h
    exact List.forall_mem_cons.2 ⟨symbol_ne_of_loadBalance hload, ih hrest⟩

end

/-! ### The start -/

section

variable {A : Arith} {st : Store} {what serverName : String} {serverId adminId : Int}

/-- The tables have the server and its admin, and no name in them holds a zero byte. -/
structure Hosted (st : Store) (serverName : String) (serverId adminId : Int) : Prop where
  row : ⟨serverId, serverName⟩ ∈ st.db.servers
  admin : (st.columns serverId).adminId = some adminId
  user : adminId ∈ st.users.map UserRow.userId
  names : st.NulFree

/-- What the order manager starts with: its server, and of its members the ids and the balances of the tables. -/
structure StartsWith (st : Store) (serverId adminId : Int) (cfg : Config) (balances : BalanceChecker) : Prop where
  server : cfg.serverId = serverId
  entry : ∀ u symbol b, balances.entry u symbol = some b ↔ ∃ userId, IsLoaded st serverId adminId userId u symbol b
  user : ∀ u userId, cfg.usernameUserIdMap u = some userId ↔
    ∃ symbol b, IsLoaded st serverId adminId userId u symbol b

private theorem Hosted.membersOf_ne_nil (h : Hosted st serverName serverId adminId) :
    st.membersOf serverId adminId ≠ [] := by
  obtain ⟨u, hu, hid⟩ := List.mem_map.1 h.user
  refine List.ne_nil_of_mem ((mem_membersOf h.names).2 ⟨?_, .inr hid, rfl⟩ :
    ⟨u.userId, u.username, st.userBalances serverId u.userId, h.names u hu⟩ ∈ _)
  exact hu

private theorem Hosted.getAllUsersBalancesForServer (h : Hosted st serverName serverId adminId) :
    st.getAllUsersBalancesForServer what serverName = .ok (st.membersOf serverId adminId) := by
  unfold Store.getAllUsersBalancesForServer
  rw [find?_of_nodup_map st.db.server_name h.row rfl]
  dsimp only
  rw [h.admin]

/-- The rows of a server are loaded exactly if none has the empty symbol. -/
private theorem Hosted.loads (h : Hosted st serverName serverId adminId) :
    ((∃ l, initBalanceChecker A (st.membersOf serverId adminId) = .ok l) ↔
      ∀ r ∈ st.loadRows serverId adminId, r.symbol ≠ "") ∧
    ∀ l, initBalanceChecker A (st.membersOf serverId adminId) = .ok l →
      l.Holds fun r => r ∈ st.loadRows serverId adminId := by
  have hloop : initBalanceChecker A (st.membersOf serverId adminId) =
      (st.loadRows serverId adminId).foldlM (loadBalance A) .empty := by
    rw [initBalanceChecker, require_of h.membersOf_ne_nil]
    rfl
  have hids : ∀ r ∈ st.loadRows serverId adminId, ∀ r', r' ∈ st.loadRows serverId adminId ∨ False →
      r'.username = r.username → r'.userId = r.userId := by
    rintro r hr r' (hr' | hfalse) hname
    · exact st.hasId_biUnique.2 ((mem_loadRows h.names).1 hr').user (hname ▸ ((mem_loadRows h.names).1 hr).user)
    · exact hfalse.elim
  have hload : (∀ r ∈ st.loadRows serverId adminId, r.symbol ≠ "") →
      ∃ l, initBalanceChecker A (st.membersOf serverId adminId) = .ok l ∧
        l.Holds fun r => r ∈ st.loadRows serverId adminId := by
    intro hsymbols
    obtain ⟨l, hl, hholds⟩ := Loaded.holds_empty.loadAll (A := A) (nodup_loadRows h.names serverId adminId)
      (fun _ _ _ hfalse => hfalse.elim) hids hsymbols
    simp only [or_false] at hholds
    exact ⟨l, hloop.trans hl, hholds⟩
  have hsymbols : ∀ l, initBalanceChecker A (st.membersOf serverId adminId) = .ok l →
      ∀ r ∈ st.loadRows serverId adminId, r.symbol ≠ "" :=
    fun l hl => symbols_ne_of_foldlM (hloop.symm.trans hl)
  refine ⟨⟨?_, ?_⟩, ?_⟩
  · rintro ⟨l, hl⟩
    exact hsymbols l hl
  · intro hne
    obtain ⟨l, hl, -⟩ := hload hne
    exact ⟨l, hl⟩
  · intro l hl
    obtain ⟨l', hl', hholds⟩ := hload (hsymbols l hl)
    cases hl'.symm.trans hl
    exact hholds

/-- What is loaded, in the words of the tables. -/
private theorem Hosted.exists_loadRow (h : Hosted st serverName serverId adminId) {userId : Int} {u symbol : String}
    {b : Int} (hloaded : IsLoaded st serverId adminId userId u symbol b) :
    ∃ r ∈ st.loadRows serverId adminId, r.userId = userId ∧ r.username = u ∧ r.symbol = symbol ∧ r.balance = b :=
  ⟨⟨userId, u, symbol, b, h.names _ hloaded.user⟩, (mem_loadRows h.names).2 hloaded, rfl, rfl, rfl, rfl⟩

private theorem Hosted.startsWith (h : Hosted st serverName serverId adminId) {cfg : Config} {l : Loaded}
    (hserver : cfg.serverId = serverId) (husers : cfg.usernameUserIdMap = l.usernameUserIdMap)
    (hholds : l.Holds fun r => r ∈ st.loadRows serverId adminId) :
    StartsWith st serverId adminId cfg l.balanceChecker := by
  refine ⟨hserver, fun u symbol b => (hholds.entry u symbol b).trans ⟨?_, ?_⟩,
    fun u userId => (iff_of_eq (by rw [husers])).trans ((hholds.user u userId).trans ⟨?_, ?_⟩)⟩
  · rintro ⟨r, hr, rfl, rfl, rfl⟩
    exact ⟨r.userId, (mem_loadRows h.names).1 hr⟩
  · rintro ⟨userId, hloaded⟩
    obtain ⟨r, hr, -, hrow⟩ := h.exists_loadRow hloaded
    exact ⟨r, hr, hrow⟩
  · rintro ⟨r, hr, rfl, rfl⟩
    exact ⟨r.symbol, r.balance, (mem_loadRows h.names).1 hr⟩
  · rintro ⟨symbol, b, hloaded⟩
    obtain ⟨r, hr, hid, hname, -⟩ := h.exists_loadRow hloaded
    exact ⟨r, hr, hname, hid⟩

/-- The order manager of a server starts if and only if no balance of a member has the empty symbol, and then it has
the ids and the balances that the tables have for the members, and no others. -/
theorem startUp_spec (A : Arith) (what : String) (active : ActiveSymbols)
    (h : Hosted st serverName serverId adminId) :
    ((∃ cfg balances, startUp A st what serverName active = .ok (cfg, balances)) ↔
      ∀ userId u symbol b, IsLoaded st serverId adminId userId u symbol b → symbol ≠ "") ∧
    ∀ cfg balances, startUp A st what serverName active = .ok (cfg, balances) →
      cfg.serverName = serverName ∧ cfg.activeSymbols = active.symbols ∧
        StartsWith st serverId adminId cfg balances := by
  obtain ⟨hiff, hholds⟩ := h.loads (A := A)
  obtain ⟨srv, hsrv, hid, -⟩ := Store.findServer_of_row h.row h.admin h.user
  have hstart : startUp A st what serverName active = (do
      let loaded ← (initBalanceChecker A (st.membersOf serverId adminId)).mapError .fault
      return (⟨serverName, srv.serverId, active.symbols, loaded.usernameUserIdMap, active.nulFree, loaded.nulFree⟩,
        loaded.balanceChecker)) := by
    rw [startUp, h.getAllUsersBalancesForServer, hsrv]
    rfl
  have hsymbols : (∀ userId u symbol b, IsLoaded st serverId adminId userId u symbol b → symbol ≠ "") ↔
      ∀ r ∈ st.loadRows serverId adminId, r.symbol ≠ "" := by
    constructor
    · exact fun hne r hr => hne _ _ _ _ ((mem_loadRows h.names).1 hr)
    · intro hne userId u symbol b hloaded
      obtain ⟨r, hr, -, -, rfl, -⟩ := h.exists_loadRow hloaded
      exact hne r hr
  rw [hsymbols, ← hiff, hstart]
  cases hload : initBalanceChecker A (st.membersOf serverId adminId) with
  | error f =>
    refine ⟨⟨?_, ?_⟩, ?_⟩
    · rintro ⟨cfg, balances, hok⟩
      cases hok
    · rintro ⟨l, hl⟩
      cases hl
    · intro cfg balances hok
      cases hok
  | ok l =>
    refine ⟨⟨fun _ => ⟨l, rfl⟩, fun _ => ⟨_, _, rfl⟩⟩, ?_⟩
    intro cfg balances hok
    cases hok
    exact ⟨rfl, rfl, h.startsWith hid rfl (hholds l hload)⟩

end

end Elsa
