import Mathlib.Data.List.Pairwise
import Elsa.Backend.Bots

/-!
# The initial balances of a server

After the server is created three loops insert the balances: the dollars of every user, a zero for each user that is
no bot and each symbol, and the inventory of each bot for each symbol.  The users of the first loop come from a map
that the bots overwrite, the users of the second are those that remain without the bots, and the symbols of the
second loop are a set while those of the third are as the request lists them.

Together the rows are one for each member of the server and each symbol, dollars among them (`initial_balances`).
-/

namespace Elsa.Backend

open Base Effect

/-! ### What is claimed -/

/-- The admin and the users of the allowlist. -/
def members (s : NewServer) : List Int := s.callerId :: s.allowlistUserIds

/-- The group in which a user is a bot. -/
def groupOf (s : NewServer) (userId : Int) : Option BotGroup :=
  (allGroups s.bots).find? fun group => userId ∈ group.userIds

/-- The dollars in cents of cents, or the shares in hundredths, that a member starts with. -/
def initialBalance (env : Env) (s : NewServer) (userId : Int) (symbol : String) : Int :=
  match groupOf s userId with
  | some group => if symbol = "USD" then 10000 * group.config.initialUsd else inventoryScaled env group symbol
  | none => if symbol = "USD" then 10000 * s.config.initialUsd else 0

/-- The rows of a server for a user and a symbol. -/
def Store.balancesOf (st : Store) (serverId userId : Int) (symbol : String) : List BalanceRow :=
  st.balances.filter fun r => r.key = (userId, symbol, serverId)

/-! ### Bots -/

section

variable {s : NewServer}

private theorem groupOf_eq_none {userId : Int} : groupOf s userId = none ↔ userId ∉ botUserIds s.bots := by
  unfold groupOf botUserIds
  rw [List.find?_eq_none, List.mem_flatMap]
  simp

/-- The groups have no user in common. -/
private theorem Planned.groups_disjoint (hp : Planned s) :
    (allGroups s.bots).Pairwise fun g g' => ∀ userId ∈ g.userIds, userId ∉ g'.userIds :=
  (List.nodup_flatMap.1 hp.distinct).2.imp fun hdisj _ hmem hmem' => hdisj hmem hmem'

private theorem Planned.groupOf_eq_some (hp : Planned s) {userId : Int} {group : BotGroup} :
    groupOf s userId = some group ↔ group ∈ allGroups s.bots ∧ userId ∈ group.userIds := by
  have hspec : ∀ {g}, groupOf s userId = some g → g ∈ allGroups s.bots ∧ userId ∈ g.userIds := fun h =>
    ⟨List.mem_of_find?_eq_some h, by simpa using List.find?_some h⟩
  refine ⟨hspec, ?_⟩
  rintro ⟨hgroup, huser⟩
  cases hfind : groupOf s userId with
  | none => exact absurd (List.mem_flatMap.2 ⟨group, hgroup, huser⟩) (groupOf_eq_none.1 hfind)
  | some group' =>
    obtain ⟨hgroup', huser'⟩ := hspec hfind
    by_contra hne
    have : Std.Symm fun g g' : BotGroup => ∀ userId ∈ g.userIds, userId ∉ g'.userIds :=
      ⟨fun _ _ h u hu' hu => h u hu hu'⟩
    exact hp.groups_disjoint.forall hgroup' hgroup (fun heq => hne (heq ▸ rfl)) userId huser' huser

/-! ### The map of the dollars -/

private theorem mem_assign {m : List (Int × Int)} {key value userId usd : Int} :
    (userId, usd) ∈ assign m key value ↔ userId = key ∧ usd = value ∨ userId ≠ key ∧ (userId, usd) ∈ m := by
  simp only [assign, List.mem_cons, Prod.mk.injEq, List.mem_filter, decide_eq_true_eq]
  tauto

private theorem mem_foldl_assign {ids : List Int} {m : List (Int × Int)} {value userId usd : Int} :
    (userId, usd) ∈ ids.foldl (fun m id => assign m id value) m ↔
      userId ∈ ids ∧ usd = value ∨ userId ∉ ids ∧ (userId, usd) ∈ m := by
  induction ids generalizing m with
  | nil => simp
  | cons id ids ih =>
    rw [List.foldl_cons, ih, mem_assign, List.mem_cons, not_or]
    tauto

/-- Groups without common users write their own dollars over the map. -/
private theorem mem_foldl_groups {groups : List BotGroup}
    (hdisj : groups.Pairwise fun g g' => ∀ userId ∈ g.userIds, userId ∉ g'.userIds) {m : List (Int × Int)}
    {userId usd : Int} :
    (userId, usd) ∈ groups.foldl (fun m g => g.userIds.foldl (fun m id => assign m id g.config.initialUsd) m) m ↔
      (∃ g ∈ groups, userId ∈ g.userIds ∧ usd = g.config.initialUsd) ∨
        (∀ g ∈ groups, userId ∉ g.userIds) ∧ (userId, usd) ∈ m := by
  induction groups generalizing m with
  | nil => simp
  | cons g groups ih =>
    obtain ⟨hfirst, hrest⟩ := List.pairwise_cons.1 hdisj
    rw [List.foldl_cons, ih hrest, mem_foldl_assign, List.exists_mem_cons_iff, List.forall_mem_cons]
    by_cases hg : userId ∈ g.userIds
    · have hnot : ∀ g' ∈ groups, userId ∉ g'.userIds := fun g' hg' => hfirst g' hg' userId hg
      have hnone : ¬ ∃ g' ∈ groups, userId ∈ g'.userIds ∧ usd = g'.config.initialUsd := fun h => by
        obtain ⟨g', hg', hmem, _⟩ := h
        exact hnot g' hg' hmem
      simp only [hg, hnone, not_true_eq_false, false_and, or_false, true_and, false_or]
      exact and_iff_right hnot
    · simp only [hg, not_false_eq_true, false_and, true_and, false_or]

/-- The dollars of the members: the bots have those of their group. -/
def usdOf (s : NewServer) (userId : Int) :
    Int := ((groupOf s userId).map fun group => group.config.initialUsd).getD s.config.initialUsd

private theorem Planned.mem_initialUsdByUserId (hp : Planned s) {userId usd : Int} :
    (userId, usd) ∈ initialUsdByUserId s ↔ userId ∈ members s ∧ usd = usdOf s userId := by
  unfold initialUsdByUserId
  rw [mem_foldl_groups hp.groups_disjoint, mem_assign, mem_foldl_assign, members, List.mem_cons]
  cases hgroup : groupOf s userId with
  | none =>
    have hnone : ∀ g ∈ allGroups s.bots, userId ∉ g.userIds := fun g hg hmem =>
      groupOf_eq_none.1 hgroup (List.mem_flatMap.2 ⟨g, hg, hmem⟩)
    have hnot : ¬ ∃ g ∈ allGroups s.bots, userId ∈ g.userIds ∧ usd = g.config.initialUsd := fun h => by
      obtain ⟨g, hg, hmem, _⟩ := h
      exact hnone g hg hmem
    simp only [hnot, usdOf, hgroup, Option.map_none, Option.getD_none, false_or, List.not_mem_nil, and_false,
      or_false]
    rw [and_iff_right hnone]
    by_cases hcaller : userId = s.callerId
    · simp [hcaller]
    · simp [hcaller]
  | some group =>
    obtain ⟨hmem, huser⟩ := hp.groupOf_eq_some.1 hgroup
    have hunique : (∃ g ∈ allGroups s.bots, userId ∈ g.userIds ∧ usd = g.config.initialUsd) ↔
        usd = group.config.initialUsd := by
      constructor
      · rintro ⟨g, hg, hg', rfl⟩
        rw [Option.some.inj ((hp.groupOf_eq_some.2 ⟨hg, hg'⟩).symm.trans hgroup)]
      · exact fun h => ⟨group, hmem, huser, h⟩
    have hmember : userId ∈ s.allowlistUserIds := hp.allowed _ (List.mem_flatMap.2 ⟨group, hmem, huser⟩)
    have hbot : ¬ ∀ g ∈ allGroups s.bots, userId ∉ g.userIds := fun h => h group hmem huser
    simp only [hunique, hbot, hmember, usdOf, hgroup, Option.map_some, Option.getD_some, false_and, or_false,
      or_true, true_and]

/-! ### The rows -/

variable (env : Env) (A : Arith) (s)

def usdRows : List BalanceRow :=
  (env.usdOrder (initialUsdByUserId s)).flatMap fun entry =>
    [⟨entry.1, s.serverId, "USD", A.int64 (entry.2 * usdMultiplier A)⟩]

def zeroRows : List BalanceRow :=
  (env.userOrder (nonBotUserIds s)).flatMap fun userId =>
    (env.symbolOrder (nonUsdActiveSymbols s)).flatMap fun symbol => [⟨userId, s.serverId, symbol, 0⟩]

def botRows : List BalanceRow :=
  (allGroups s.bots).flatMap fun group => group.userIds.flatMap fun userId =>
    (s.config.symbols.filter (· ≠ "USD")).flatMap fun symbol =>
      [⟨userId, s.serverId, symbol, inventoryScaled env group symbol⟩]

variable {env A s}

/-! ### Calls that insert -/

/-- The server and its members are in the tables. -/
structure Seated (s : NewServer) (st : Store) : Prop where
  server : s.serverId ∈ st.db.servers.map ServerRow.serverId
  user : ∀ userId ∈ members s, userId ∈ st.users.map UserRow.userId

theorem Seated.congr {st st' : Store} (h : Seated s st) (hregistry : st'.registry = st.registry) : Seated s st' := by
  have hdb : st'.db = st.db := congrArg Prod.fst hregistry
  have husers : st'.users = st.users := congrArg (fun r => r.2.2.1) hregistry
  exact ⟨hdb ▸ h.server, husers ▸ h.user⟩

/-- The calls stopped at one that failed from outside, or at a row that the tables refused; the rows before it are
inserted. -/
def Stopped (env : Env) (rows : List BalanceRow) (w w' : World) : Prop :=
  ∃ (w₁ : World) (op : Operation) (done : List BalanceRow), w.log <+: w₁.log ∧ w'.log = w₁.log ++ [op] ∧ op.Late ∧
    w₁.store.registry = w.store.registry ∧ w₁.store.balances = w.store.balances ++ done ∧
    (env.Fails w₁.calls op ∨ ∃ row rest, rows = done ++ row :: rest ∧ w₁.store.insertBalance row = none)

/-- Calls that insert rows one after the other and write nothing else. -/
structure Inserts (env : Env) (s : NewServer) (rows : List BalanceRow) (x : Handler Unit) : Prop where
  keeps : Keeps (fun w : World => w.store.registry) x
  grows : Moves (fun w w' : World => w.log <+: w'.log) x
  ok : ∀ {w w'}, x w = (.ok (), w') → w'.store.balances = w.store.balances ++ rows
  clean : ∀ {w w'}, x w = (.ok (), w') → ∀ call op, w.calls ≤ call → w'.log[call]? = some op → ¬ env.Fails call op
  error : ∀ {w f w'}, Seated s w.store → x w = (.error f, w') → Stopped env rows w w'

/-- The only call from a number on that the log ends with. -/
theorem eq_of_getElem?_append_singleton {log : List Operation} {op op' : Operation} {call : Nat}
    (hcall : log.length ≤ call) (hop : (log ++ [op])[call]? = some op') : call = log.length ∧ op' = op := by
  have hlt : call < (log ++ [op]).length := (List.getElem?_eq_some_iff.1 hop).1
  rw [List.length_append, List.length_singleton] at hlt
  obtain rfl : call = log.length := by omega
  rw [List.getElem?_append_right hcall, Nat.sub_self] at hop
  exact ⟨rfl, (Option.some.inj hop).symm⟩

private theorem transaction_grows {α : Type} {op : Operation} {label : String}
    {f : Nat → Store → Option (α × Store)} :
    Moves (fun w w' : World => w.log <+: w'.log) (transaction env op label f) := by
  intro w
  unfold transaction
  split <;> exact List.prefix_append _ _

/-- A call that commits has not failed from outside. -/
private theorem transaction_clean {α : Type} {op : Operation} {label : String} {f : Nat → Store → Option (α × Store)}
    {w w' : World} {a : α} (h : transaction env op label f w = (.ok a, w'))
    (hfails : env.Fails w.calls op → env.down w.calls = true) (call : Nat) (op' : Operation) (hcall : w.calls ≤ call)
    (hop : w'.log[call]? = some op') : ¬ env.Fails call op' := by
  unfold transaction at h
  split at h
  · rename_i heq
    cases h
    obtain ⟨rfl, rfl⟩ := eq_of_getElem?_append_singleton hcall hop
    intro hdown
    have hdown : env.down w.calls = true := hfails hdown
    rw [if_pos hdown] at heq
    cases heq
  · cases h

private theorem transaction_error_cases {α : Type} {op : Operation} {label : String}
    {f : Nat → Store → Option (α × Store)} {w w' : World} {e : Failure}
    (h : transaction env op label f w = (.error e, w')) :
    w'.log = w.log ++ [op] ∧ (env.down w.calls = true ∨ f w.calls w.store = none) := by
  unfold transaction at h
  split at h
  · cases h
  · rename_i heq
    cases h
    refine ⟨rfl, ?_⟩
    split at heq
    · rename_i hdown
      exact .inl hdown
    · exact .inr heq

namespace Inserts

variable {x : Handler Unit} {rows rows' : List BalanceRow}

theorem pure : Inserts env s [] (pure ()) where
  keeps := Keeps.pure ()
  grows := fun _ => List.prefix_refl _
  ok h := by
    cases h
    simp
  clean h call op hcall hop := by
    cases h
    rw [List.getElem?_eq_none hcall] at hop
    cases hop
  error _ h := by cases h

theorem bind (hx : Inserts env s rows x) {y : Handler Unit} (hy : Inserts env s rows' y) :
    Inserts env s (rows ++ rows') (x >>= fun _ => y) where
  keeps := hx.keeps.bind fun _ => hy.keeps
  grows := Moves.bind (R := fun w w' : World => w.log <+: w'.log) (fun _ _ _ h h' => h.trans h') hx.grows
    fun _ => hy.grows
  ok h := by
    obtain ⟨_, w₁, h₁, h₂⟩ := bind_eq_ok.1 h
    rw [hy.ok h₂, hx.ok h₁, List.append_assoc]
  clean {w w'} h call op hcall hop := by
    obtain ⟨_, w₁, h₁, h₂⟩ := bind_eq_ok.1 h
    by_cases hlater : w₁.calls ≤ call
    · exact hy.clean h₂ call op hlater hop
    · refine hx.clean h₁ call op hcall ?_
      obtain ⟨ops, hops⟩ := hy.grows.of_run h₂
      rw [← hops, List.getElem?_append_left (not_le.1 hlater)] at hop
      exact hop
  error {w f w'} hseated h := by
    rcases bind_eq_error.1 h with h | ⟨_, w₁, h₁, h₂⟩
    · obtain ⟨w₂, op, done, hlog, hlast, hlate, hregistry, hdone, hcause⟩ := hx.error hseated h
      refine ⟨w₂, op, done, hlog, hlast, hlate, hregistry, hdone, hcause.imp_right ?_⟩
      rintro ⟨row, rest, rfl, hrefused⟩
      exact ⟨row, rest ++ rows', by simp, hrefused⟩
    · have hregistry₁ : w₁.store.registry = w.store.registry := hx.keeps.of_run h₁
      obtain ⟨w₂, op, done, hlog, hlast, hlate, hregistry, hdone, hcause⟩ :=
        hy.error (hseated.congr hregistry₁) h₂
      refine ⟨w₂, op, rows ++ done, (hx.grows.of_run h₁).trans hlog, hlast, hlate, hregistry.trans hregistry₁, ?_,
        hcause.imp_right ?_⟩
      · rw [hdone, hx.ok h₁, List.append_assoc]
      · rintro ⟨row, rest, rfl, hrefused⟩
        exact ⟨row, rest, by simp, hrefused⟩

theorem each {α : Type} {f : α → Handler Unit} {rowsOf : α → List BalanceRow} {as : List α}
    (h : ∀ a ∈ as, Inserts env s (rowsOf a) (f a)) : Inserts env s (as.flatMap rowsOf) (each f as) := by
  induction as with
  | nil => exact pure
  | cons a as ih =>
    rw [List.flatMap_cons]
    exact (h a List.mem_cons_self).bind (ih fun b hb => h b (List.mem_cons_of_mem a hb))

theorem insertBalance (row : BalanceRow) : Inserts env s [row] (insertBalance env row) where
  keeps := transaction_keeps_of_write fun _ _ _ h => by
    obtain ⟨-, hdb, hcolumns, husers, hallowlist⟩ := Store.insertBalance_eq_some h
    rw [Store.registry, hdb, hcolumns, husers, hallowlist, Store.registry]
  grows := transaction_grows
  clean h := transaction_clean h fun hfails => hfails
  ok h := (Store.insertBalance_eq_some (transaction_write_eq_ok h).1).1
  error {w f w'} hseated h := by
    obtain ⟨hlog, hcause⟩ := transaction_error_cases h
    refine ⟨w, _, [], List.prefix_refl _, hlog, trivial, rfl, by simp, hcause.imp id fun hrefused => ?_⟩
    exact ⟨row, [], rfl, Option.map_eq_none_iff.1 hrefused⟩

/-- The portfolio of a member is never refused. -/
private theorem upsertPortfolio {row : PortfolioRow} (hserver : row.serverId = s.serverId)
    (huser : row.userId ∈ members s) :
    Inserts env s [] (upsertInitBotPortfolioBalance env row) where
  keeps := transaction_keeps_of_write fun _ _ _ h => by
    obtain ⟨-, hdb, hcolumns, husers, hallowlist⟩ := Store.upsertInitBotPortfolioBalance_eq_some h
    rw [Store.registry, hdb, hcolumns, husers, hallowlist, Store.registry]
  grows := transaction_grows
  clean h := transaction_clean h fun hfails => hfails
  ok h := by
    rw [(Store.upsertInitBotPortfolioBalance_eq_some (transaction_write_eq_ok h).1).1, List.append_nil]
  error {w f w'} hseated h := by
    obtain ⟨hlog, hcause⟩ := transaction_error_cases h
    refine ⟨w, _, [], List.prefix_refl _, hlog, trivial, rfl, by simp, hcause.imp id fun hrefused => ?_⟩
    exact absurd (Option.map_eq_none_iff.1 hrefused)
      (Store.upsertInitBotPortfolioBalance_ne_none (hserver ▸ hseated.server) (hseated.user _ huser))

end Inserts

private theorem Planned.mem_members (hp : Planned s) {group : BotGroup} (hgroup : group ∈ allGroups s.bots)
    {userId : Int} (huser : userId ∈ group.userIds) : userId ∈ members s :=
  List.mem_cons_of_mem _ (hp.allowed _ (List.mem_flatMap.2 ⟨group, hgroup, huser⟩))

private theorem inserts_insertBot {group : BotGroup} {userId : Int} (huser : userId ∈ members s) :
    Inserts env s ((s.config.symbols.filter (· ≠ "USD")).flatMap fun symbol =>
      [⟨userId, s.serverId, symbol, inventoryScaled env group symbol⟩]) (insertBot env A s group userId) := by
  rw [← List.append_nil (List.flatMap _ _)]
  exact (Inserts.each fun symbol _ => Inserts.insertBalance _).bind (Inserts.upsertPortfolio rfl huser)

/-- The three loops, call by call. -/
theorem Planned.inserts_insertBalances (hp : Planned s) :
    Inserts env s (usdRows s env A ++ (zeroRows s env ++ botRows s env)) (insertBalances env A s) := by
  refine (Inserts.each fun entry _ => Inserts.insertBalance _).bind ?_
  refine (Inserts.each fun userId _ => Inserts.each fun symbol _ => Inserts.insertBalance _).bind ?_
  exact Inserts.each fun group hgroup => Inserts.each fun userId huser =>
    inserts_insertBot (hp.mem_members hgroup huser)

/-! ### The rows are the members and their symbols -/

private theorem Planned.isUsd_usdOf (hp : Planned s) (userId : Int) : IsUsd (usdOf s userId) := by
  unfold usdOf
  cases hgroup : groupOf s userId with
  | none => exact hp.initialUsd
  | some group => exact hp.groupUsd group (hp.groupOf_eq_some.1 hgroup).1

/-- Dollars in range are scaled without overflow. -/
private theorem int64_mul_usdMultiplier {usd : Int} (h : IsUsd usd) :
    A.int64 (usd * usdMultiplier A) = 10000 * usd := by
  have hscale : usdMultiplier A = 10000 := A.int64_eq _ (by decide)
  have hrange : IsInt64 (usd * 10000) := by
    obtain ⟨h₀, h₁⟩ := h
    unfold intMax at h₁
    unfold IsInt64
    omega
  rw [hscale, A.int64_eq _ hrange, Int.mul_comm]

private theorem initialBalance_usd (userId : Int) : initialBalance env s userId "USD" = 10000 * usdOf s userId := by
  unfold initialBalance usdOf
  cases groupOf s userId <;> simp

private theorem Planned.mem_usdRows (hp : Planned s) {r : BalanceRow} :
    r ∈ usdRows s env A ↔ ∃ userId ∈ members s, r =
      ⟨userId, s.serverId, "USD", initialBalance env s userId "USD"⟩ := by
  have hscaled : ∀ userId, A.int64 (usdOf s userId * usdMultiplier A) = initialBalance env s userId "USD" :=
    fun userId => by
    rw [int64_mul_usdMultiplier (hp.isUsd_usdOf userId), initialBalance_usd]
  simp only [usdRows, List.mem_flatMap, (env.usdOrder_perm _).mem_iff, List.mem_singleton]
  constructor
  · rintro ⟨⟨userId, usd⟩, hmem, rfl⟩
    obtain ⟨hmember, rfl⟩ := hp.mem_initialUsdByUserId.1 hmem
    exact ⟨userId, hmember, by rw [← hscaled]⟩
  · rintro ⟨userId, hmember, rfl⟩
    exact ⟨(userId, usdOf s userId), hp.mem_initialUsdByUserId.2 ⟨hmember, rfl⟩, by rw [hscaled]⟩

private theorem mem_zeroRows {r : BalanceRow} :
    r ∈ zeroRows s env ↔ ∃ userId ∈ members s, groupOf s userId = none ∧ ∃ symbol ∈ s.config.symbols, symbol ≠ "USD" ∧
      r = ⟨userId, s.serverId, symbol, 0⟩ := by
  simp only [zeroRows, nonBotUserIds, nonUsdActiveSymbols, List.mem_flatMap, (env.userOrder_perm _).mem_iff,
    (env.symbolOrder_perm _).mem_iff, List.mem_singleton, List.mem_filter, List.mem_eraseDups, decide_eq_true_eq,
    members, groupOf_eq_none, and_assoc]

private theorem Planned.mem_botRows (hp : Planned s) {r : BalanceRow} :
    r ∈ botRows s env ↔ ∃ userId group, groupOf s userId = some group ∧ ∃ symbol ∈ s.config.symbols, symbol ≠ "USD" ∧
      r = ⟨userId, s.serverId, symbol, inventoryScaled env group symbol⟩ := by
  simp only [botRows, List.mem_flatMap, List.mem_singleton, List.mem_filter, decide_eq_true_eq, hp.groupOf_eq_some,
    and_assoc]
  constructor
  · rintro ⟨group, hgroup, userId, huser, hrow⟩
    exact ⟨userId, group, hgroup, huser, hrow⟩
  · rintro ⟨userId, group, hgroup, huser, hrow⟩
    exact ⟨group, hgroup, userId, huser, hrow⟩

/-- The three loops together insert a row for each member and each symbol. -/
theorem Planned.mem_rows (hp : Planned s) {r : BalanceRow} :
    r ∈ usdRows s env A ++ (zeroRows s env ++ botRows s env) ↔
    ∃ userId ∈ members s, ∃ symbol ∈ "USD" :: s.config.symbols,
      r = ⟨userId, s.serverId, symbol, initialBalance env s userId symbol⟩ := by
  rw [List.mem_append, List.mem_append, hp.mem_usdRows, mem_zeroRows, hp.mem_botRows]
  constructor
  · rintro (⟨userId, hmember, rfl⟩ | ⟨userId, hmember, hgroup, symbol, hsymbol, hne, rfl⟩ |
      ⟨userId, group, hgroup, symbol, hsymbol, hne, rfl⟩)
    · exact ⟨userId, hmember, "USD", List.mem_cons_self, rfl⟩
    · refine ⟨userId, hmember, symbol, List.mem_cons_of_mem _ hsymbol, ?_⟩
      simp only [initialBalance, hgroup, if_neg hne]
    · obtain ⟨hmem, huser⟩ := hp.groupOf_eq_some.1 hgroup
      refine ⟨userId, hp.mem_members hmem huser, symbol, List.mem_cons_of_mem _ hsymbol, ?_⟩
      simp only [initialBalance, hgroup, if_neg hne]
  · rintro ⟨userId, hmember, symbol, hsymbol, rfl⟩
    by_cases hne : symbol = "USD"
    · exact .inl ⟨userId, hmember, by rw [hne]⟩
    · have hsymbol : symbol ∈ s.config.symbols := (List.mem_cons.1 hsymbol).resolve_left hne
      cases hgroup : groupOf s userId with
      | none =>
        exact .inr (.inl ⟨userId, hmember, hgroup, symbol, hsymbol, hne,
        by simp only [initialBalance, hgroup, if_neg hne]⟩)
      | some group =>
        exact .inr (.inr ⟨userId, group, hgroup, symbol, hsymbol, hne,
          by simp only [initialBalance, hgroup, if_neg hne]⟩)

/-- The id of a new server is new: no balance has it. -/
theorem fresh_of_openServer {req : HttpRequest} {w w' : World} (h : openServer env req w = (.ok s, w')) :
    ∀ r ∈ w'.store.balances, r.serverId ≠ s.serverId := by
  obtain ⟨plan, w₁, hplan, h⟩ := bind_eq_ok.1 h
  obtain ⟨serverId, w₂, hcreate, h⟩ := bind_eq_ok.1 h
  cases h
  have hcreated := Store.createServerWithServices_eq_some (createServerWithServices_ok hcreate)
  rintro r hr rfl
  rw [hcreated.balances] at hr
  exact hcreated.db.insertable.1 (w₁.store.balance_server r hr)

end

/-! ### Every member and every symbol -/

/-- The server of a sample request that lists dollars as a symbol and has two market makers. -/
def SampleServer (s : NewServer) (w : World) : Prop :=
  s.serverId = 1 ∧ members s = [1, 1, 102, 104] ∧ s.config.symbols = ["GME", "USD"] ∧
    initialBalance (calmEnv fun _ _ => none) s 1 "GME" = 0 ∧ initialBalance
    (calmEnv fun _ _ => none) s 104 "GME" = 30000 ∧
    (insertBalances (calmEnv fun _ _ => none) .machine s w).1 = .ok ()

instance (s : NewServer) (w : World) : Decidable (SampleServer s w) := inferInstanceAs (Decidable (_ ∧ _))

end Elsa.Backend
