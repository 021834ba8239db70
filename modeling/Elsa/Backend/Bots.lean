import Mathlib.Data.List.Nodup
import Elsa.Backend.Users

/-!
# The bots of a new server

A request for a server brings groups of bots.  Each bot is a user whose name is the name of its service and a
number; the numbers run through the groups of a service, so that no two bots of a request have one name.  A bot that
is not there yet is created, and all bots enter the allowlist (`planned_of_openServer`).
-/

namespace Elsa.Backend

open Base Effect

/-! ### Dollars -/

/-- The range in which an amount of dollars is read. -/
def IsUsd (n : Int) : Prop := 0 ≤ n ∧ n ≤ intMax

instance (n : Int) : Decidable (IsUsd n) := inferInstanceAs (Decidable (_ ∧ _))

private theorem isUsd_of_parseIntValue {fieldName : String} {d n : Int} {value : Json} (hd : IsUsd d)
    (h : parseIntValue fieldName d value = .ok n) : IsUsd n := by
  have hrange : ∀ {parsed : Int} {text : String}, (if parsed < 0 ∨ intMax < parsed then
      Except.error text else .ok parsed) = .ok n → IsUsd n := by
    intro parsed text h
    split at h
    · cases h
    · cases h
      unfold IsUsd
      omega
  unfold parseIntValue at h
  cases value with
  | null => cases h; exact hd
  | int64 parsed => exact hrange h
  | uint64 raw =>
    dsimp only at h
    split at h
    · cases h
    · exact hrange h
  | double raw =>
    dsimp only at h
    split at h
    · exact hrange h
    · cases h
  | _ => cases h

private theorem isUsd_of_parseBotGroup {t : BotType} (ht : IsUsd t.defaultGroupInitialUsd) {symbols : List String}
    {groupObj : JsonObject} {groupIndex : Nat} {g : BotGroupConfig}
    (h : t.parseBotGroup symbols groupObj groupIndex = .ok g) : IsUsd g.initialUsd := by
  obtain ⟨count, -, h⟩ := Base.bind_eq_ok.1 h
  obtain ⟨initialUsd, husd, h⟩ := Base.bind_eq_ok.1 h
  obtain ⟨initialInventory, -, h⟩ := Base.bind_eq_ok.1 h
  obtain ⟨inventoryBySymbol, -, h⟩ := Base.bind_eq_ok.1 h
  obtain ⟨deployParams, -, h⟩ := Base.bind_eq_ok.1 h
  cases h
  unfold parseField at husd
  split at husd
  · exact isUsd_of_parseIntValue ht husd
  · cases husd
    exact ht

private theorem isUsd_of_parseGroups {t : BotType} (ht : IsUsd t.defaultGroupInitialUsd) {symbols : List String}
    {values : List Json} {groupIndex : Nat} {groups : List BotGroupConfig}
    (h : t.parseGroups symbols values groupIndex = .ok groups) : ∀ g ∈ groups, IsUsd g.initialUsd := by
  induction values generalizing groupIndex groups with
  | nil =>
    cases h
    exact List.forall_mem_nil _
  | cons value values ih =>
    cases value with
    | object groupObj =>
      obtain ⟨group, hgroup, h⟩ := Base.bind_eq_ok.1 h
      obtain ⟨groups', hgroups, h⟩ := Base.bind_eq_ok.1 h
      cases h
      exact List.forall_mem_cons.2 ⟨isUsd_of_parseBotGroup ht hgroup, ih hgroups⟩
    | _ => cases h

private theorem parseBotConfig_ok {t : BotType} (ht : IsUsd t.defaultGroupInitialUsd) {symbols : List String}
    {botsObj : JsonObject} {config : BotCreateConfig} (h : t.parseBotConfig symbols botsObj = .ok config) :
    config.serviceName = t.serviceName ∧ ∀ g ∈ config.groups, IsUsd g.initialUsd := by
  have hempty : ∀ g ∈ [t.emptyGroup], IsUsd g.initialUsd := List.forall_mem_singleton.2 ht
  unfold BotType.parseBotConfig at h
  split at h
  · split at h
    · obtain ⟨groups, hgroups, h⟩ := Base.bind_eq_ok.1 h
      cases h
      refine ⟨rfl, ?_⟩
      dsimp only
      split
      · exact hempty
      · exact isUsd_of_parseGroups ht hgroups
    · obtain ⟨group, hgroup, h⟩ := Base.bind_eq_ok.1 h
      cases h
      exact ⟨rfl, List.forall_mem_singleton.2 (isUsd_of_parseBotGroup ht hgroup)⟩
  · cases h
    exact ⟨rfl, hempty⟩

private theorem parseServerName_ok {body : JsonObject} {serverName : String}
    (h : parseServerName body = .ok serverName) : isServerNameValid serverName = true := by
  unfold parseServerName at h
  split at h
  · split at h
    · rename_i hvalid
      cases h
      exact hvalid
    · cases h
  · cases h

private theorem parseInitialUsd_ok {value : Option Json} {initialUsd : Int}
    (h : parseInitialUsd value = .ok initialUsd) : IsUsd initialUsd := by
  unfold parseInitialUsd at h
  split at h
  · cases h
    decide
  · split at h
    · cases h
    · cases h
      unfold IsUsd
      omega
  · cases h

/-- The name of the server is valid and its allowlist is not empty, the dollars of the request and of its bots are
in range, and there are three kinds of bots. -/
private theorem parseServerConfig_ok {body : Option Json} {config : ServerConfig}
    (h : parseServerConfig body = .ok config) :
    isServerNameValid config.serverName = true ∧ config.allowlistNames ≠ [] ∧ IsUsd config.initialUsd ∧
      config.botConfigs.map BotCreateConfig.serviceName = ["mm", "nt", "it"] ∧
      ∀ bot ∈ config.botConfigs, ∀ g ∈ bot.groups, IsUsd g.initialUsd := by
  unfold parseServerConfig at h
  split at h
  · cases h
  · obtain ⟨serverName, hname, h⟩ := Base.bind_eq_ok.1 h
    obtain ⟨initialUsd, husd, h⟩ := Base.bind_eq_ok.1 h
    dsimp only at h
    split at h
    · cases h
    split at h
    · cases h
    rename_i hallowlist
    obtain ⟨botsObj, -, h⟩ := Base.bind_eq_ok.1 h
    obtain ⟨mm, hmm, h⟩ := Base.bind_eq_ok.1 h
    obtain ⟨nt, hnt, h⟩ := Base.bind_eq_ok.1 h
    obtain ⟨it, hit, h⟩ := Base.bind_eq_ok.1 h
    obtain ⟨oracleCfg, -, h⟩ := Base.bind_eq_ok.1 h
    cases h
    have hinitial : IsUsd initialUsd := parseInitialUsd_ok husd
    obtain ⟨hmmName, hmmUsd⟩ := parseBotConfig_ok hinitial hmm
    obtain ⟨hntName, hntUsd⟩ := parseBotConfig_ok hinitial hnt
    obtain ⟨hitName, hitUsd⟩ := parseBotConfig_ok (show IsUsd 1500000 by decide) hit
    refine ⟨parseServerName_ok hname, hallowlist, hinitial, ?_, ?_⟩
    · simp only [List.map_cons, List.map_nil, hmmName, hntName, hitName]
      rfl
    · simp only [List.forall_mem_cons]
      exact ⟨hmmUsd, hntUsd, hitUsd, List.forall_mem_nil _⟩
  · cases h

/-! ### Names -/

/-- The name of a bot. -/
def botName (serviceName : String) (i : Nat) : String := serviceName ++ toString i

private theorem botName_inj {serviceName : String} {i j : Nat} (h : botName serviceName i = botName serviceName j) :
    i = j := by
  have hdigits : Nat.toDigits 10 i = Nat.toDigits 10 j := by
    have htext := congrArg String.toList h
    simpa [botName, Nat.toString_eq_ofList_toDigits] using htext
  rw [← Nat.ofDigitChars_toDigits (b := 10) (n := i) (by decide) (by decide), hdigits,
    Nat.ofDigitChars_toDigits (by decide) (by decide)]

/-- Services whose names start differently give different names. -/
private theorem botName_ne {serviceName serviceName' : String}
    (hhead : serviceName.toList.head? ≠ serviceName'.toList.head?) (hne : serviceName.toList ≠ [])
    (hne' : serviceName'.toList ≠ []) (i j : Nat) : botName serviceName i ≠ botName serviceName' j := by
  intro h
  have hfirst := congrArg (fun name : String => name.toList.head?) h
  simp only [botName, String.toList_append, List.head?_append_of_ne_nil _ hne, List.head?_append_of_ne_nil _ hne']
    at hfirst
  exact hhead hfirst

def BotConfig.usernames (bot : BotConfig) : List String := bot.groups.flatMap BotGroup.usernames

def BotConfig.userIds (bot : BotConfig) : List Int := bot.groups.flatMap BotGroup.userIds

/-- The names of all bots. -/
def botUsernames (bots : List BotConfig) : List String := bots.flatMap BotConfig.usernames

private theorem botUserIds_eq (bots : List BotConfig) : botUserIds bots = bots.flatMap BotConfig.userIds := by
  rw [botUserIds, allGroups, List.flatMap_assoc]
  rfl

/-! ### The users of the bots -/

/-- No user is lost. -/
def Store.Grows (st st' : Store) : Prop := ∀ u ∈ st.users, u ∈ st'.users

theorem Store.HasId.grows {st st' : Store} {name : String} {userId : Int} (hgrows : st.Grows st')
    (h : st.HasId name userId) :
    st'.HasId name userId := hgrows _ h

variable {env : Env}

private theorem createUser_ok {username : String} {w w' : World} {userId : Int}
    (h : createUser env username w = (.ok userId, w')) :
    w.store.Grows w'.store ∧ w'.store.HasId username userId := by
  obtain ⟨hcreate, rfl⟩ := transaction_write_eq_ok h
  obtain ⟨husers, -⟩ := Store.createUser_eq_some hcreate
  unfold Store.Grows Store.HasId
  rw [husers]
  exact ⟨fun u hu => List.mem_append_left _ hu, List.mem_append_right _ (List.mem_singleton.2 rfl)⟩

private theorem botUser_ok {username : String} {w w' : World} {userId : Int}
    (h : botUser env username w = (.ok userId, w')) : w.store.Grows w'.store ∧ w'.store.HasId username userId := by
  obtain ⟨user, w₁, hget, h⟩ := bind_eq_ok.1 h
  obtain ⟨rfl, hstore⟩ := getUser_ok hget
  cases hfind : w.store.getUser username with
  | none =>
    rw [hfind] at h
    exact hstore ▸ createUser_ok h
  | some u =>
    rw [hfind] at h
    cases h
    exact ⟨fun u hu => hstore ▸ hu, hstore ▸ Store.getUser_eq_some hfind⟩

/-- The groups of a service: their configurations are as requested, their names are numbered through, and they have
the ids of their users. -/
structure HasGroups (st : Store) (serviceName : String) (configs : List BotGroupConfig) (runningIndex : Nat)
    (groups : List BotGroup) : Prop where
  configs : groups.map BotGroup.config = configs
  counts : ∀ group ∈ groups, group.userIds.length = group.config.count.toNat
  names : ∃ n, groups.flatMap BotGroup.usernames = (List.range' runningIndex n).map (botName serviceName)
  users : List.Forall₂ st.HasId (groups.flatMap BotGroup.usernames) (groups.flatMap BotGroup.userIds)

theorem HasGroups.grows {st st' : Store} {serviceName : String} {configs : List BotGroupConfig} {runningIndex : Nat}
    {groups : List BotGroup} (hgrows : st.Grows st') (h : HasGroups st serviceName configs runningIndex groups) :
    HasGroups st' serviceName configs runningIndex groups :=
  ⟨h.configs, h.counts, h.names, h.users.imp fun _ _ hid => hid.grows hgrows⟩

private theorem botGroups_ok {serviceName : String} {configs : List BotGroupConfig} {runningIndex : Nat}
    {groups : List BotGroup} {w w' : World} (h : botGroups env serviceName configs runningIndex w =
      (.ok groups, w')) : w.store.Grows w'.store ∧ HasGroups w'.store serviceName configs runningIndex groups := by
  induction configs generalizing runningIndex groups w with
  | nil =>
    cases h
    exact ⟨fun _ hu => hu, rfl, fun _ hgroup => absurd hgroup List.not_mem_nil, ⟨0, rfl⟩, .nil⟩
  | cons config configs ih =>
    obtain ⟨ids, w₁, hids, h⟩ := bind_eq_ok.1 h
    obtain ⟨groups', w₂, hgroups, h⟩ := bind_eq_ok.1 h
    cases h
    obtain ⟨hgrows, husers⟩ := forall₂_of_collect (fun w w' : World => w.store.Grows w'.store)
        (fun w => w.store.HasId) (fun _ _ hu => hu) (fun _ _ _ h h' u hu => h' u (h u hu))
        (fun _ _ _ _ h hid => hid.grows h) (fun _ _ _ _ h => botUser_ok h) hids
    obtain ⟨hgrows', hrest⟩ := ih hgroups
    obtain ⟨n, hnames⟩ := hrest.names
    refine ⟨fun u hu => hgrows' u (hgrows u hu), ?_, List.forall_mem_cons.2 ⟨?_, hrest.counts⟩,
      ⟨config.count.toNat + n, ?_⟩, ?_⟩
    · rw [List.map_cons, hrest.configs]
    · exact husers.length_eq.symm.trans (by simp)
    · have hfirst : (List.range config.count.toNat).map (fun i => botName serviceName (runningIndex + i)) =
          (List.range' runningIndex config.count.toNat).map (botName serviceName) := by
        rw [List.range'_eq_map_range, List.map_map]
        rfl
      rw [List.flatMap_cons, hnames, List.range'_append_1.symm, List.map_append, ← hfirst]
      rfl
    · rw [List.flatMap_cons, List.flatMap_cons]
      exact List.rel_append (husers.imp fun _ _ hid => hid.grows hgrows') hrest.users

/-- The bots that a list of configurations gives. -/
def HasBots (st : Store) (config : BotCreateConfig) (bot : BotConfig) : Prop :=
  bot.serviceName = config.serviceName ∧ HasGroups st config.serviceName config.groups 1 bot.groups

private theorem collect_botConfig_ok {configs : List BotCreateConfig} {bots : List BotConfig} {w w' : World}
    (h : collect (botConfig env) configs w = (.ok bots, w')) : List.Forall₂ (HasBots w'.store) configs bots := by
  refine (forall₂_of_collect (fun w w' : World => w.store.Grows w'.store) (fun w => HasBots w.store)
    (fun _ _ hu => hu) (fun _ _ _ h h' u hu => h' u (h u hu)) (fun _ _ _ _ hgrows h => ⟨h.1, h.2.grows hgrows⟩)
    (fun config bot w w' h => ?_) h).2
  obtain ⟨groups, w₁, hgroups, h⟩ := bind_eq_ok.1 h
  cases h
  obtain ⟨hgrows, hall⟩ := botGroups_ok hgroups
  exact ⟨hgrows, rfl, hall⟩

private theorem map_serviceName_of_hasBots {st : Store} {configs : List BotCreateConfig} {bots : List BotConfig}
    (h : List.Forall₂ (HasBots st) configs bots) :
    bots.map BotConfig.serviceName = configs.map BotCreateConfig.serviceName := by
  induction h with
  | nil => rfl
  | cons hbot _ ih => rw [List.map_cons, List.map_cons, hbot.1, ih]

private theorem forall₂_users_of_hasBots {st : Store} {configs : List BotCreateConfig} {bots : List BotConfig}
    (h : List.Forall₂ (HasBots st) configs bots) : List.Forall₂ st.HasId (botUsernames bots) (botUserIds bots) := by
  rw [botUserIds_eq, botUsernames]
  induction h with
  | nil => exact .nil
  | cons hbot _ ih =>
    rw [List.flatMap_cons, List.flatMap_cons]
    exact List.rel_append hbot.2.users ih

/-- The bots of three kinds of services have different names. -/
private theorem botUsernames_nodup {st : Store} {configs : List BotCreateConfig} {bots : List BotConfig}
    (h : List.Forall₂ (HasBots st) configs bots)
    (hservices : configs.map BotCreateConfig.serviceName = ["mm", "nt", "it"]) : (botUsernames bots).Nodup := by
  have hnames : ∀ bot ∈ bots, ∃ n, bot.usernames = (List.range' 1 n).map (botName bot.serviceName) := by
    intro bot hbot
    obtain ⟨config, -, hname, hgroups⟩ := exists_of_forall₂ h hbot
    exact hname ▸ hgroups.names
  refine List.nodup_flatMap.2 ⟨fun bot hbot => ?_, ?_⟩
  · obtain ⟨n, hn⟩ := hnames bot hbot
    rw [hn]
    exact (List.nodup_range' 1).map fun _ _ heq => botName_inj heq
  · have hstart : (bots.map BotConfig.serviceName).Pairwise fun a b =>
        a.toList.head? ≠ b.toList.head? ∧ a.toList ≠ [] ∧ b.toList ≠ [] := by
      rw [map_serviceName_of_hasBots h, hservices]
      decide
    refine List.Pairwise.imp_of_mem (fun {bot bot'} hbot hbot' hne name hname hname' => ?_)
      (List.pairwise_map.1 hstart)
    obtain ⟨n, hn⟩ := hnames bot hbot
    obtain ⟨n', hn'⟩ := hnames bot' hbot'
    rw [hn] at hname
    rw [hn'] at hname'
    obtain ⟨i, -, rfl⟩ := List.mem_map.1 hname
    obtain ⟨j, -, heq⟩ := List.mem_map.1 hname'
    exact botName_ne hne.1 hne.2.1 hne.2.2 i j heq.symm

/-! ### The plan -/

private theorem mem_allAllowlistNames {allowlistNames : List String} {bots : List BotConfig} {name : String} :
    name ∈ allAllowlistNames allowlistNames bots ↔ name ∈ allowlistNames ∨ name ∈ botUsernames bots := by
  have hfold : ∀ (new names : List String), name ∈ new.foldl
      (fun names username => if username ∈ names then names else names ++ [username]) names ↔
      name ∈ names ∨ name ∈ new := by
    intro new
    induction new with
    | nil => simp
    | cons username new ih =>
      intro names
      rw [List.foldl_cons, ih, List.mem_cons]
      by_cases hmem : username ∈ names
      · rw [if_pos hmem]
        constructor
        · exact fun h => h.imp_right .inr
        · rintro (h | rfl | h)
          · exact .inl h
          · exact .inl hmem
          · exact .inr h
      · rw [if_neg hmem, List.mem_append, List.mem_singleton, or_assoc]
  have hbots : botUsernames bots = (allGroups bots).flatMap BotGroup.usernames := by
    rw [allGroups, List.flatMap_assoc]
    rfl
  rw [allAllowlistNames, hfold, hbots]

/-- The amounts of a server are in range, its bots are different users, and they are on its allowlist. -/
structure Planned (s : NewServer) : Prop where
  initialUsd : IsUsd s.config.initialUsd
  groupUsd : ∀ group ∈ allGroups s.bots, IsUsd group.config.initialUsd
  distinct : (botUserIds s.bots).Nodup
  allowed : ∀ userId ∈ botUserIds s.bots, userId ∈ s.allowlistUserIds

theorem planned_of_openServer {req : HttpRequest} {w w' : World} {s : NewServer}
    (h : openServer env req w = (.ok s, w')) : Planned s := by
  obtain ⟨plan, w₁, hplan, h⟩ := bind_eq_ok.1 h
  obtain ⟨serverId, w₂, -, h⟩ := bind_eq_ok.1 h
  cases h
  obtain ⟨hconfig, -, w₃, w₄, w₅, hbots, hids, -⟩ := prepareServer_ok hplan
  obtain ⟨-, -, husd, hservices, hgroups⟩ := parseServerConfig_ok hconfig
  have hall := collect_botConfig_ok hbots
  have husers := forall₂_users_of_hasBots hall
  obtain ⟨-, hids⟩ := resolveUserIds_ok hids
  refine ⟨husd, fun group hgroup => ?_, ?_, fun userId huser => ?_⟩
  · obtain ⟨bot, hbot, hgroup⟩ := List.mem_flatMap.1 hgroup
    obtain ⟨config, hmem, -, hhas⟩ := exists_of_forall₂ hall hbot
    exact hgroups config hmem _ (hhas.configs ▸ List.mem_map_of_mem hgroup)
  · exact (List.rel_nodup w₄.store.hasId_biUnique husers).1 (botUsernames_nodup hall hservices)
  · obtain ⟨name, hname, hid⟩ := (mem_iff_of_hasId husers userId).1 huser
    exact (mem_iff_of_hasId hids userId).2 ⟨name, mem_allAllowlistNames.2 (.inr hname), hid⟩

/-- There are bots if and only if the request asks for one. -/
theorem botUserIds_of_openServer {req : HttpRequest} {w w' : World} {s : NewServer}
    (h : openServer env req w = (.ok s, w')) :
    botUserIds s.bots ≠ [] ↔ ∃ bot ∈ s.config.botConfigs, ∃ group ∈ bot.groups, 0 < group.count := by
  obtain ⟨plan, w₁, hplan, h⟩ := bind_eq_ok.1 h
  obtain ⟨serverId, w₂, -, h⟩ := bind_eq_ok.1 h
  cases h
  obtain ⟨-, -, w₃, w₄, w₅, hbots, -⟩ := prepareServer_ok hplan
  have hall := collect_botConfig_ok hbots
  have hpos : ∀ {bot : BotConfig} {config : BotCreateConfig}, HasBots w₄.store config bot → ∀ group ∈ bot.groups,
      (group.userIds ≠ [] ↔ 0 < group.config.count) := fun hbot group hgroup => by
    rw [← List.length_pos_iff, hbot.2.counts group hgroup]
    omega
  rw [ne_eq, botUserIds, List.flatMap_eq_nil_iff, not_forall]
  constructor
  · rintro ⟨group, hne⟩
    rw [Classical.not_imp] at hne
    obtain ⟨bot, hbot, hgroup⟩ := List.mem_flatMap.1 hne.1
    obtain ⟨config, hconfig, hhas⟩ := exists_of_forall₂ hall hbot
    refine ⟨config, hconfig, group.config, ?_, (hpos hhas group hgroup).1 hne.2⟩
    rw [← hhas.2.configs]
    exact List.mem_map_of_mem hgroup
  · rintro ⟨config, hconfig, groupConfig, hmem, hcount⟩
    obtain ⟨bot, hbot, hhas⟩ := exists_of_forall₂ hall.flip hconfig
    rw [← hhas.2.configs] at hmem
    obtain ⟨group, hgroup, rfl⟩ := List.mem_map.1 hmem
    refine ⟨group, Classical.not_imp.2 ⟨List.mem_flatMap.2 ⟨bot, hbot, hgroup⟩, ?_⟩⟩
    exact (hpos hhas group hgroup).2 hcount

/-- The users of the allowlist are those that the request names, and the bots. -/
theorem mem_allowlistUserIds_of_openServer {req : HttpRequest} {w w' : World} {s : NewServer}
    (h : openServer env req w = (.ok s, w')) (userId : Int) :
    userId ∈ s.allowlistUserIds ↔ userId ∈ botUserIds s.bots ∨
    ∃ name ∈ s.config.allowlistNames, w'.store.HasId name userId := by
  obtain ⟨plan, w₁, hplan, h⟩ := bind_eq_ok.1 h
  obtain ⟨serverId, w₂, hcreate, h⟩ := bind_eq_ok.1 h
  cases h
  obtain ⟨-, -, w₃, w₄, w₅, hbots, hids, hstore⟩ := prepareServer_ok hplan
  obtain ⟨hstore', hids⟩ := resolveUserIds_ok hids
  have husers := forall₂_users_of_hasBots (collect_botConfig_ok hbots)
  have hsame : w'.store.HasId = w₄.store.HasId := by
    unfold Store.HasId
    rw [(Store.createServerWithServices_eq_some (createServerWithServices_ok hcreate)).users, hstore, hstore']
  rw [mem_iff_of_hasId hids, mem_iff_of_hasId husers, hsame]
  constructor
  · rintro ⟨name, hname, hid⟩
    exact (mem_allAllowlistNames.1 hname).symm.imp (fun h => ⟨name, h, hid⟩) fun h => ⟨name, h, hid⟩
  · rintro (⟨name, hname, hid⟩ | ⟨name, hname, hid⟩)
    · exact ⟨name, mem_allAllowlistNames.2 (.inr hname), hid⟩
    · exact ⟨name, mem_allAllowlistNames.2 (.inl hname), hid⟩

/-- The allowlist of a server that was created is not empty and names no user twice. -/
theorem allowlistNames_of_openServer {req : HttpRequest} {w w' : World} {s : NewServer}
    (h : openServer env req w = (.ok s, w')) :
    isServerNameValid s.config.serverName = true ∧ s.allowlistNames ≠ [] ∧ s.allowlistNames.Nodup := by
  obtain ⟨plan, w₁, hplan, h⟩ := bind_eq_ok.1 h
  obtain ⟨serverId, w₂, hcreate, h⟩ := bind_eq_ok.1 h
  cases h
  obtain ⟨hconfig, hnames, w₃, w₄, w₅, -, hids, -⟩ := prepareServer_ok hplan
  obtain ⟨hvalid, hne, -⟩ := parseServerConfig_ok hconfig
  obtain ⟨-, hids⟩ := resolveUserIds_ok hids
  refine ⟨hvalid, ?_, ?_⟩
  · show plan.allowlistNames ≠ []
    obtain ⟨name, hname⟩ := List.exists_mem_of_ne_nil _ hne
    rw [hnames]
    exact List.ne_nil_of_mem (mem_allAllowlistNames.2 (.inl hname))
  · show plan.allowlistNames.Nodup
    rw [hnames]
    exact (List.rel_nodup w₄.store.hasId_biUnique hids).2
      (Store.createServerWithServices_eq_some (createServerWithServices_ok hcreate)).nodup

end Elsa.Backend
