import Elsa.Base.Totals
import Elsa.Base.Settings
import Elsa.Backend.Bots
import Elsa.Deployment.Instances

/-!
# The whitelist of a gateway

`handle_create_server` joins the names of the allowlist with commas and sends the text to the deployment server.  For
the gateway, `deploy_service` cuts it again with `_parse_csv_string`, which strips the pieces and leaves out empty
ones, and writes one `[SESSION]` block for each piece into `gateway_server.cfg`.  The gateway reads the file through
`FIX::SessionSettings`, which is not part of the repository, and lets in the users that have a session there
(`SettingsReader`).

`handle_signup` takes every name that is free.  So the gateway has one session for each user of the allowlist and none
for anybody else if and only if no name is empty, holds a comma or a line feed, or has white space at its ends
(`deployed_whitelist_iff`).
-/

namespace Elsa.Deployment

open Base Backend

/-! ### Texts in Python -/

/-- The white space of Python's `str.strip`. -/
def isSpace (c : Char) : Bool :=
  (9 ≤ c.toNat && c.toNat ≤ 13) || (28 ≤ c.toNat && c.toNat ≤ 32) || (0x2000 ≤ c.toNat && c.toNat ≤ 0x200A) ||
    c.toNat ∈ [0x85, 0xA0, 0x1680, 0x2028, 0x2029, 0x202F, 0x205F, 0x3000]

/-- `text.strip()`. -/
def pyStrip (text : String) : String := String.ofList (strip isSpace text.toList)

/-- `text.rstrip()`. -/
def pyRstrip (text : String) : String := String.ofList (text.toList.rdropWhile isSpace)

/-- `text.replace(old, new)`. -/
def pyReplace (text old new : String) : String := String.ofList (replace old.toList new.toList text.toList)

/-- Python's `str` on a value that was read from JSON.  Of the other values nothing is used. -/
structure Printer where
  str : Json → String
  string : ∀ text, str (.string text) = text
  int64 : ∀ n, str (.int64 n) = toString n

/-- `type(value).__name__`. -/
def typeName : Json → String
  | .null => "NoneType"
  | .bool _ => "bool"
  | .int64 _ | .uint64 _ => "int"
  | .double _ => "float"
  | .string _ => "str"
  | .array _ => "list"
  | .object _ => "dict"

/-! ### Reading the whitelist -/

def stripEntry (fieldName : String) : Json → Except DeploymentError String
  | .string entry => .ok (pyStrip entry)
  | entry => .error ("'" ++ fieldName ++ "' list entries must be strings, got " ++ typeName entry)

/-- The pieces of a value, stripped. -/
def csvItems (fieldName : String) : Json → Except DeploymentError (List String)
  | .string rawValue => .ok ((rawValue.toList.splitOn ',').map fun part => pyStrip (String.ofList part))
  | .array rawValue => rawValue.mapM (stripEntry fieldName)
  | _ => .error ("'" ++ fieldName ++ "' must be a comma-separated string or list of strings")

def parseCsvString (rawValue : Json) (fieldName : String) : Except DeploymentError (List String) := do
  let items ← csvItems fieldName rawValue
  let values := items.filter (· ≠ "")
  if values = [] then .error ("'" ++ fieldName ++ "' must contain at least one value") else .ok values

/-! ### Writing the configuration -/

/-- The lines of `template/gateway_server.cfg` before the port. -/
def gatewayCfgBefore : List String :=
  ["# [DEFAULT] section defines common settings for all sessions", "[DEFAULT]", "ConnectionType=acceptor",
    "ReconnectInterval=5", "FileStorePath=store", "FileLogPath=log", "StartTime=00:00:00", "EndTime=00:00:00",
    "HeartBtInt=30"]

/-- The lines of `template/gateway_server.cfg` after the port. -/
def gatewayCfgAfter : List String :=
  ["SocketReuseAddress=Y", "ValidateUserDefinedFields=N", "ValidateFieldsOutOfOrder=N", "ValidateFieldsHaveValues=Y",
    "ValidateIncomingMessage=Y", "UseDataDictionary=N"]

def gatewayCfgLines (port : String) : List String :=
  gatewayCfgBefore ++ ("SocketAcceptPort=" ++ port) :: gatewayCfgAfter

/-- `template/gateway_server.cfg`. -/
def gatewayCfgTemplate : String := "\n".intercalate (gatewayCfgLines "<port placeholder>")

def sessionBlock (serverName targetCompId : String) : String :=
  "[SESSION]\n" ++ "BeginString=FIX.4.2\n" ++ "SenderCompID=" ++ serverName ++ "\n" ++ "TargetCompID=" ++ targetCompId

/-- What `deploy_service` does for the gateway alone: the text of `gateway_server.cfg`, from the template at the
path if there is one. -/
def gatewayServerCfg (py : Printer) (templatePath : String) (template : Option String) (serverName : String)
    (params : JsonObject) : Except DeploymentError String := do
  let port ← orFail (params.lookup "fix_server_port") "Gateway deployment requires 'fix_server_port'"
  let rawValue ← orFail (params.lookup "whitelist") "Gateway deployment requires 'whitelist'"
  let cfgText ← orFail template ("Gateway cfg template not found: " ++ templatePath)
  let fixServerPort := pyStrip (py.str port)
  require (fixServerPort ≠ "") "'fix_server_port' cannot be empty"
  let whitelist ← parseCsvString rawValue "whitelist"
  let cfgText := pyReplace cfgText "<port placeholder>" fixServerPort
  let cfgText := pyReplace cfgText "<server id>" serverName
  let cfgText := pyReplace cfgText "<server name>" serverName
  let sessionBlocks := whitelist.map (sessionBlock serverName)
  return pyRstrip cfgText ++ "\n\n" ++ "\n\n".intercalate sessionBlocks ++ "\n"

/-! ### The sessions of a configuration -/

structure Session where
  beginString : String
  senderCompId : String
  targetCompId : String
deriving DecidableEq, Repr

/-- The text of `gateway_server.cfg`: the template with its port, and a block for each name. -/
def gatewayCfgText (port serverName : String) (whitelist : List String) : String :=
  "\n".intercalate (gatewayCfgLines port) ++ "\n\n" ++ "\n\n".intercalate (whitelist.map (sessionBlock serverName)) ++
    "\n"

/-- A value on one line, without white space at its ends. -/
def IsEntry (value : String) : Prop := value ≠ "" ∧ '\n' ∉ value.toList ∧ pyStrip value = value

instance (value : String) : Decidable (IsEntry value) := inferInstanceAs (Decidable (_ ∧ _ ∧ _))

/-- `FIX::SessionSettings`: the sessions in a text, none where the text is refused.  A value is what stands on the
line of its key, so that it holds no line feed; and with the template before them, different blocks of such values
are sessions with these values. -/
structure SettingsReader where
  sessions : String → List Session
  sessions_of_blocks {port serverName : String} {whitelist : List String} :
    IsEntry port → IsEntry serverName → (∀ name ∈ whitelist, IsEntry name) → whitelist.Nodup →
      sessions (gatewayCfgText port serverName whitelist) =
        whitelist.map fun name => ⟨"FIX.4.2", serverName, name⟩
  newline_notMem {cfg : String} {x : Session} : x ∈ sessions cfg → '\n' ∉ x.targetCompId.toList

/-- One session for each of the named users, and none for anybody else. -/
def LetsIn (reader : SettingsReader) (cfg serverName : String) (names : List String) : Prop :=
  ∀ username, (reader.sessions cfg).filter (fun x => x.targetCompId = username) =
    if username ∈ names then [⟨"FIX.4.2", serverName, username⟩] else []

/-- A name that reaches the gateway as it is. -/
def Listed (name : String) : Prop := name ≠ "" ∧ ',' ∉ name.toList ∧ '\n' ∉ name.toList ∧ pyStrip name = name

instance (name : String) : Decidable (Listed name) := inferInstanceAs (Decidable (_ ∧ _ ∧ _ ∧ _))

/-! ### The whitelist is the allowlist -/

private theorem pyStrip_eq_self {text : String} : pyStrip text = text ↔ strip isSpace text.toList = text.toList := by
  rw [pyStrip, ← String.toList_inj, String.toList_ofList]

private theorem filter_csvItems (rawValue : List Char) :
    ((rawValue.splitOn ',').map fun part => pyStrip (String.ofList part)).filter (· ≠ "") =
      (fields ',' (strip isSpace) rawValue).map String.ofList := by
  have hempty : ((· ≠ "") : String → Bool) ∘ String.ofList = fun piece => !piece.isEmpty := by
    funext piece
    cases piece with
    | nil => rfl
    | cons c piece =>
      refine decide_eq_true fun h => ?_
      have hlist := congrArg String.toList h
      rw [String.toList_ofList] at hlist
      cases hlist
  have hstrip : (fun part => pyStrip (String.ofList part)) = String.ofList ∘ strip isSpace := by
    funext part
    rw [pyStrip, String.toList_ofList]
    rfl
  rw [hstrip, ← List.map_map, List.filter_map, hempty]
  rfl

private theorem parseCsvString_string (rawValue fieldName : String) : parseCsvString (.string rawValue) fieldName =
    let values := (fields ',' (strip isSpace) rawValue.toList).map String.ofList
    if values = [] then .error ("'" ++ fieldName ++ "' must contain at least one value") else .ok values := by
  rw [← filter_csvItems]
  rfl

/-- The names come back from the joined text if and only if none is empty, holds a comma or has white space at its
ends. -/
private theorem parseCsvString_joinCsv_iff {names : List String} (hne : names ≠ []) (fieldName : String) :
    parseCsvString (.string (joinCsv names)) fieldName = .ok names ↔
      ∀ name ∈ names, name ≠ "" ∧ ',' ∉ name.toList ∧ pyStrip name = name := by
  have hjoin : (joinCsv names).toList = [','].intercalate (names.map String.toList) := by
    rw [joinCsv, String.toList_intercalate]
    rfl
  have hvalues : (fields ',' (strip isSpace) (joinCsv names).toList).map String.ofList = names ↔
      ∀ name ∈ names, name ≠ "" ∧ ',' ∉ name.toList ∧ pyStrip name = name := by
    rw [hjoin, map_ofList_eq_iff, fields_intercalate_iff (strip_subset isSpace), List.forall_mem_map]
    simp only [pyStrip_eq_self, ne_eq, String.toList_eq_nil_iff]
  rw [← hvalues, parseCsvString_string]
  dsimp only
  split
  · rename_i hnil
    exact iff_of_false (fun h => by cases h) fun h => hne (h.symm.trans hnil)
  · exact ⟨Except.ok.inj, congrArg Except.ok⟩

/-! ### The template -/

private theorem toList_gatewayCfgLines : ∃ before after :
    List Char, '<' ∉ before ∧ '<' ∉ after ∧ after.getLast? = some 'N' ∧
    ∀ port : String, ("\n".intercalate (gatewayCfgLines port)).toList = before ++ (port.toList ++ after) := by
  have hafter : '<' ∉ (gatewayCfgAfter.map String.toList).flatMap ("\n".toList ++ ·) ∧
      ((gatewayCfgAfter.map String.toList).flatMap ("\n".toList ++ ·)).getLast? = some 'N' := by decide +kernel
  refine ⟨"\n".toList.intercalate (gatewayCfgBefore.map String.toList ++ ["SocketAcceptPort=".toList]), _,
    by decide +kernel, hafter.1, hafter.2, fun port => ?_⟩
  rw [String.toList_intercalate, gatewayCfgLines, List.map_append, List.map_cons, String.toList_append,
    intercalate_append_cons]

/-- The template holds one placeholder, and nothing is stripped off its end. -/
private theorem pyReplace_template {port serverName : String} (hport : '<' ∉ port.toList) :
    pyRstrip (pyReplace (pyReplace (pyReplace gatewayCfgTemplate "<port placeholder>" port) "<server id>"
      serverName) "<server name>" serverName) = "\n".intercalate (gatewayCfgLines port) := by
  obtain ⟨before, after, hbefore, hafter, hlast, htext⟩ := toList_gatewayCfgLines
  have hfilled : replace "<port placeholder>".toList port.toList gatewayCfgTemplate.toList =
      before ++ (port.toList ++ after) := by
    rw [gatewayCfgTemplate, htext, replace_append_of_notMem rfl hbefore, replace_append_self (by decide),
      replace_of_notMem rfl hafter]
  have hrest : '<' ∉ before ++ (port.toList ++ after) := by simp [hbefore, hport, hafter]
  have hend : (before ++ (port.toList ++ after)).rdropWhile isSpace = before ++ (port.toList ++ after) := by
    rw [rdropWhile_eq_self_iff_getLast, List.getLast?_append, List.getLast?_append, hlast, Option.some_or,
      Option.some_or]
    rintro c ⟨⟩
    rfl
  rw [← String.toList_inj, htext]
  simp only [pyRstrip, pyReplace, String.toList_ofList]
  rw [hfilled, replace_of_notMem rfl hrest, replace_of_notMem rfl hrest, hend]

/-! ### Letters -/

private theorem isSpace_of_visible {c : Char} (h : 32 < c.toNat ∧ c.toNat < 128) : isSpace c = false := by
  unfold isSpace
  simp only [Bool.or_eq_false_iff, Bool.and_eq_false_iff, decide_eq_false_iff_not, List.mem_cons, List.not_mem_nil,
    or_false]
  omega

private theorem visible_of_isDigit {c : Char} (h : c.isDigit = true) : 47 < c.toNat ∧ c.toNat < 58 := by
  obtain ⟨hlow, hhigh⟩ := Char.isDigit_iff_toNat.1 h
  have hzero : '0'.toNat = 48 := rfl
  have hnine : '9'.toNat = 57 := rfl
  omega

theorem visible_of_isAlphanum {c : Char} (h : c.isAlphanum = true) : 32 < c.toNat ∧ c.toNat < 128 := by
  rcases Bool.or_eq_true_iff.1 h with halpha | hdigit
  · rcases Bool.or_eq_true_iff.1 halpha with hupper | hlower
    · obtain ⟨hlow, hhigh⟩ := of_decide_eq_true hupper
      have hlow : 65 ≤ c.toNat := hlow
      have hhigh : c.toNat ≤ 90 := hhigh
      omega
    · obtain ⟨hlow, hhigh⟩ := (Bool.and_eq_true_iff.1 hlower).imp of_decide_eq_true of_decide_eq_true
      have hlow : 97 ≤ c.toNat := hlow
      have hhigh : c.toNat ≤ 122 := hhigh
      omega
  · have := visible_of_isDigit hdigit
    omega

/-- A number is written with digits, and perhaps a sign. -/
private theorem mem_toString {n : Int} {c : Char} (h : c ∈ (toString n).toList) : c.isDigit = true ∨ c = '-' := by
  have hnat : ∀ m : Nat, c ∈ m.repr.toList → c.isDigit = true := by
    intro m hc
    rw [Nat.toList_repr] at hc
    exact Nat.isDigit_of_mem_toDigits (by decide) (by decide) hc
  rw [Int.toString_eq_repr, Int.repr_eq_if] at h
  split at h
  · exact .inl (hnat _ h)
  · rw [String.toList_append] at h
    rcases List.mem_append.1 h with h | h
    · exact .inr (List.mem_singleton.1 h)
    · exact .inl (hnat _ h)

private theorem toString_ne_empty (n : Int) : toString n ≠ "" := by
  rw [Int.toString_eq_repr, Int.repr_eq_if]
  split
  · exact Nat.repr_ne_empty
  · intro h
    have hlist := congrArg String.toList h
    rw [String.toList_append] at hlist
    cases hlist

theorem pyStrip_of_visible {text : String} (h : ∀ c ∈ text.toList, 32 < c.toNat ∧ c.toNat < 128) :
    pyStrip text = text :=
  pyStrip_eq_self.2 (strip_of_forall fun c hc => isSpace_of_visible (h c hc))

private theorem isEntry_of_visible {text : String} (hne : text ≠ "")
    (h : ∀ c ∈ text.toList, 32 < c.toNat ∧ c.toNat < 128) : IsEntry text := by
  refine ⟨hne, fun hc => ?_, pyStrip_of_visible h⟩
  have := (h _ hc).1
  revert this
  decide

private theorem visible_toString (n : Int) :
    '<' ∉ (toString n).toList ∧ ∀ c ∈ (toString n).toList, 32 < c.toNat ∧ c.toNat < 128 := by
  constructor
  · intro h
    have := mem_toString h
    revert this
    decide
  · intro c hc
    rcases mem_toString hc with h | rfl
    · have := visible_of_isDigit h
      omega
    · decide

theorem visible_of_isServerNameValid {serverName : String} (h : isServerNameValid serverName = true) :
    ∀ c ∈ serverName.toList, 32 < c.toNat ∧ c.toNat < 128 := by
  unfold isServerNameValid at h
  rw [Bool.and_eq_true, List.all_eq_true] at h
  exact fun c hc => visible_of_isAlphanum (h.2 c hc)

private theorem isEntry_of_isServerNameValid {serverName : String} (h : isServerNameValid serverName = true) :
    IsEntry serverName := by
  refine isEntry_of_visible ?_ (visible_of_isServerNameValid h)
  unfold isServerNameValid at h
  rw [Bool.and_eq_true, Bool.and_eq_true] at h
  exact of_decide_eq_true h.1.1

private theorem isEntry_toString (n : Int) : IsEntry (toString n) :=
  isEntry_of_visible (toString_ne_empty n) (visible_toString n).2

/-! ### The configuration of a server -/

/-- What is written for the port and the whitelist that `handle_create_server` sends. -/
private theorem gatewayServerCfg_eq (py : Printer) (templatePath serverName : String) {params : JsonObject}
    {port : Int} {rawValue : Json} {whitelist : List String}
    (hport : params.lookup "fix_server_port" = some (.int64 port)) (hraw : params.lookup "whitelist" = some rawValue)
    (hparse : parseCsvString rawValue "whitelist" = .ok whitelist) :
    gatewayServerCfg py templatePath (some gatewayCfgTemplate) serverName params =
      .ok (gatewayCfgText (toString port) serverName whitelist) := by
  obtain ⟨hplaceholder, hvisible⟩ := visible_toString port
  have hstrip : pyStrip (py.str (.int64 port)) = toString port := by rw [py.int64, pyStrip_of_visible hvisible]
  unfold gatewayServerCfg
  simp only [hport, hraw, orFail_some, ok_bind, hstrip, require_of (toString_ne_empty port), hparse]
  rw [pyReplace_template hplaceholder]
  rfl

/-- One session for each name of a list without repetitions lets in those of the list. -/
private theorem letsIn_of_sessions {reader : SettingsReader} {cfg serverName : String} {names : List String}
    (hnodup : names.Nodup) (h : reader.sessions cfg = names.map fun name => ⟨"FIX.4.2", serverName, name⟩) :
    LetsIn reader cfg serverName names := by
  intro username
  have htargets : (reader.sessions cfg).map Session.targetCompId = names := by
    rw [h, List.map_map]
    exact map_eq_self_iff.2 fun _ _ => rfl
  split
  · rename_i hmem
    have hx : (⟨"FIX.4.2", serverName, username⟩ : Session) ∈ reader.sessions cfg := by
      rw [h]
      exact List.mem_map_of_mem hmem
    have htargets_nodup : ((reader.sessions cfg).map Session.targetCompId).Nodup := htargets.symm ▸ hnodup
    exact filter_name_eq htargets_nodup hx
  · rename_i hmem
    refine List.filter_eq_nil_iff.2 fun x hx heq => hmem ?_
    rw [← htargets, ← of_decide_eq_true heq]
    exact List.mem_map_of_mem hx

private theorem eq_gateway {s : NewServer} {d : Backend.Deployment} (hd : d ∈ serviceDeployments s)
    (hgateway : d.serviceName = "gateway") :
    d.serverName = s.config.serverName ∧ (∃ port, d.params.lookup "fix_server_port" = some (.int64 port)) ∧
      d.params.lookup "whitelist" = some (.string (joinCsv s.allowlistNames)) := by
  simp only [serviceDeployments, List.mem_cons, List.not_mem_nil, or_false] at hd
  rcases hd with rfl | rfl | rfl | rfl | rfl
  · exact absurd (show "mdp" = "gateway" from hgateway) (by decide)
  · exact absurd (show "me" = "gateway" from hgateway) (by decide)
  · exact absurd (show "oms" = "gateway" from hgateway) (by decide)
  · exact ⟨rfl, ⟨_, rfl⟩, rfl⟩
  · exact absurd (show "oracle" = "gateway" from hgateway) (by decide)

private theorem exists_gateway (s : NewServer) : ∃ d ∈ serviceDeployments s, d.serviceName = "gateway" :=
  ⟨_, List.mem_cons_of_mem _ (List.mem_cons_of_mem _ (List.mem_cons_of_mem _ List.mem_cons_self)), rfl⟩

/-- For a server that was created: the whitelist that the deployment server reads is the allowlist, and the gateway
has one session for each user of it and none for anybody else, if and only if no name on the allowlist is empty, holds
a comma or a line feed, or has white space at its ends. -/
theorem deployed_whitelist_iff (env : Env) (py : Printer) (reader : SettingsReader) (templatePath : String)
    (req : HttpRequest) (w w' : World) (s : NewServer) (d : Backend.Deployment)
    (hopen : openServer env req w = (.ok s, w')) (hd : d ∈ serviceDeployments s)
    (hgateway : d.serviceName = "gateway") :
    ((d.params.lookup "whitelist").map (parseCsvString · "whitelist") = some (.ok s.allowlistNames) ∧
      ∃ cfg, gatewayServerCfg py templatePath (some gatewayCfgTemplate) d.serverName d.params = .ok cfg ∧
        LetsIn reader cfg s.config.serverName s.allowlistNames) ↔
    ∀ name ∈ s.allowlistNames, Listed name := by
  obtain ⟨hvalid, hne, hnodup⟩ := allowlistNames_of_openServer hopen
  obtain ⟨hserver, ⟨port, hport⟩, hraw⟩ := eq_gateway hd hgateway
  rw [hraw, Option.map_some, Option.some.injEq, parseCsvString_joinCsv_iff hne]
  constructor
  · rintro ⟨hnames, cfg, -, hlets⟩ name hname
    obtain ⟨hempty, hcomma, hstrip⟩ := hnames name hname
    have hsession : (⟨"FIX.4.2", s.config.serverName, name⟩ : Session) ∈ reader.sessions cfg := by
      have hfilter := hlets name
      rw [if_pos hname] at hfilter
      exact List.mem_of_mem_filter (hfilter ▸ List.mem_singleton.2 rfl)
    exact ⟨hempty, hcomma, reader.newline_notMem hsession, hstrip⟩
  · intro hlisted
    have hnames : ∀ name ∈ s.allowlistNames, name ≠ "" ∧ ',' ∉ name.toList ∧ pyStrip name = name := fun name hname =>
      ⟨(hlisted name hname).1, (hlisted name hname).2.1, (hlisted name hname).2.2.2⟩
    have hentries : ∀ name ∈ s.allowlistNames, IsEntry name := fun name hname =>
      ⟨(hlisted name hname).1, (hlisted name hname).2.2⟩
    have hparse := (parseCsvString_joinCsv_iff hne "whitelist").2 hnames
    refine ⟨hnames, _, gatewayServerCfg_eq py templatePath d.serverName hport hraw hparse,
      letsIn_of_sessions hnodup ?_⟩
    rw [hserver]
    exact reader.sessions_of_blocks (isEntry_toString port) (isEntry_of_isServerNameValid hvalid) hentries hnodup

/-! ### A reader -/

/-- The session that a section of the settings stands for. -/
def session? (s : Settings.Section) : Option Session :=
  if s.name = "SESSION".toList then do
    let beginString ← s.get? "BeginString".toList
    let senderCompId ← s.get? "SenderCompID".toList
    let targetCompId ← s.get? "TargetCompID".toList
    return ⟨String.ofList beginString, String.ofList senderCompId, String.ofList targetCompId⟩
  else none

/-- The sessions of a text that is read line by line. -/
def lineSessions (cfg : String) : List Session := (Settings.read cfg.toList).filterMap session?

private theorem toList_sessionBlock (serverName targetCompId : String) :
    (sessionBlock serverName targetCompId).toList =
    "[SESSION]".toList ++ '\n' :: (("BeginString".toList ++ '=' :: "FIX.4.2".toList) ++
      '\n' :: (("SenderCompID".toList ++ '=' :: serverName.toList) ++
        '\n' :: ("TargetCompID".toList ++ '=' :: targetCompId.toList))) := by
  have hheader : "[SESSION]\n".toList = "[SESSION]".toList ++ ['\n'] := rfl
  have hbegin : "BeginString=FIX.4.2\n".toList = ("BeginString".toList ++ '=' :: "FIX.4.2".toList) ++ ['\n'] := rfl
  have hsender : "SenderCompID=".toList = "SenderCompID".toList ++ ['='] := rfl
  have htarget : "TargetCompID=".toList = "TargetCompID".toList ++ ['='] := rfl
  have hline : "\n".toList = ['\n'] := rfl
  unfold sessionBlock
  rw [String.toList_append, String.toList_append, String.toList_append, String.toList_append, String.toList_append,
    String.toList_append, hheader, hbegin, hsender, htarget, hline]
  simp only [List.append_assoc, List.cons_append, List.nil_append]

/-- The section of a block. -/
def sessionSection (serverName targetCompId : String) : Settings.Section :=
  ⟨"SESSION".toList, [("TargetCompID".toList, targetCompId.toList), ("SenderCompID".toList, serverName.toList),
    ("BeginString".toList, "FIX.4.2".toList)]⟩

private theorem session?_sessionSection (serverName targetCompId : String) :
    session? (sessionSection serverName targetCompId) = some ⟨"FIX.4.2", serverName, targetCompId⟩ := by
  have hbegin : (sessionSection serverName targetCompId).get? "BeginString".toList = some "FIX.4.2".toList := rfl
  have hsender : (sessionSection serverName targetCompId).get? "SenderCompID".toList = some serverName.toList := rfl
  have htarget : (sessionSection serverName targetCompId).get? "TargetCompID".toList = some targetCompId.toList := rfl
  have hname : (sessionSection serverName targetCompId).name = "SESSION".toList := rfl
  rw [session?, if_pos hname, hbegin, hsender, htarget]
  simp only [Option.bind_eq_bind, Option.bind_some, String.ofList_toList]
  rfl

open Settings in
private theorem readFrom_sessionBlock {serverName targetCompId : String} (hserver : IsValue serverName.toList)
    (htarget : IsValue targetCompId.toList) (sections : List Section) :
    readFrom sections (sessionBlock serverName targetCompId).toList =
      sessionSection serverName targetCompId :: sections := by
  have hheader : readFrom sections "[SESSION]".toList = ⟨"SESSION".toList, []⟩ :: sections := by
    have hparse : parseLine "[SESSION]".toList = .header "SESSION".toList := by decide
    rw [readFrom_line (by decide), readLine_header hparse]
  rw [toList_sessionBlock, readFrom_append, hheader, readFrom_append, readFrom_entry (by decide) (by decide),
    readFrom_append, readFrom_entry (by decide) hserver, readFrom_entry (by decide) htarget]
  rfl

open Settings in
private theorem foldl_readFrom_sessionBlock {serverName : String} (hserver : IsValue serverName.toList)
    {whitelist : List String} (h : ∀ name ∈ whitelist, IsValue name.toList) (sections : List Section) :
    ((whitelist.map (sessionBlock serverName)).map String.toList).foldl readFrom sections =
      (whitelist.map (sessionSection serverName)).reverse ++ sections := by
  induction whitelist generalizing sections with
  | nil => rfl
  | cons name whitelist ih =>
    obtain ⟨hname, hrest⟩ := List.forall_mem_cons.1 h
    simp only [List.map_cons, List.foldl_cons, readFrom_sessionBlock hserver hname, ih hrest, List.reverse_cons,
      List.append_assoc, List.singleton_append]

private theorem isSpace_of_isBlank {c : Char} (h : Settings.isBlank c = true) : isSpace c = true := by
  unfold Settings.isBlank at h
  simp only [Bool.or_eq_true, decide_eq_true_eq] at h
  rcases h with ((rfl | rfl) | rfl) | rfl <;> decide

private theorem isValue_of_isEntry {value : String} (h : IsEntry value) : Settings.IsValue value.toList :=
  ⟨h.2.1, strip_eq_self_of_imp (fun _ => isSpace_of_isBlank) (pyStrip_eq_self.1 h.2.2)⟩

/-- A line that opens no session. -/
def Plain (line : List Char) : Prop := '\n' ∉ line ∧ Settings.parseLine line ≠ .header "SESSION".toList

instance (line : List Char) : Decidable (Plain line) := inferInstanceAs (Decidable (_ ∧ _))

open Settings in
private theorem gatewayCfgLines_plain {port : String} (hport : IsValue port.toList) :
    ∀ line ∈ (gatewayCfgLines port).map String.toList, Plain line := by
  have hbefore : ∀ line ∈ gatewayCfgBefore.map String.toList, Plain line := by decide +kernel
  have hafter : ∀ line ∈ gatewayCfgAfter.map String.toList, Plain line := by decide +kernel
  have hkey : "SocketAcceptPort=".toList = "SocketAcceptPort".toList ++ ['='] := rfl
  have hline : ("SocketAcceptPort=" ++ port).toList = "SocketAcceptPort".toList ++ '=' :: port.toList := by
    rw [String.toList_append, hkey, List.append_assoc, List.singleton_append]
  have hplain : Plain ("SocketAcceptPort=" ++ port).toList := by
    rw [hline]
    refine ⟨newline_notMem_entry (by decide) hport, fun h => ?_⟩
    rw [parseLine_entry (by decide) hport] at h
    cases h
  rw [gatewayCfgLines, List.map_append, List.map_cons]
  exact List.forall_mem_append.2 ⟨hbefore, List.forall_mem_cons.2 ⟨hplain, hafter⟩⟩

open Settings in
/-- The template has no session. -/
private theorem session?_template {port : String} (hport : IsValue port.toList) :
    ∀ s ∈ readFrom [] ("\n".intercalate (gatewayCfgLines port)).toList, session? s = none := by
  intro s hs
  have hplain := gatewayCfgLines_plain hport
  have hne : (gatewayCfgLines port).map String.toList ≠ [] := by simp [gatewayCfgLines]
  rw [readFrom, String.toList_intercalate, show "\n".toList = ['\n'] from rfl,
    List.splitOn_intercalate '\n' (fun line hline => (hplain line hline).1) hne] at hs
  refine if_neg fun hname => ?_
  rcases exists_header hs with ⟨line, hline, hheader⟩ | hnil
  · exact (hplain line hline).2 (hname ▸ hheader)
  · cases hnil

open Settings in
/-- The sessions of the text that is written for a whitelist. -/
private theorem lineSessions_cfg {port serverName : String} {whitelist : List String} (hport : IsValue port.toList)
    (hserver : IsValue serverName.toList) (h : ∀ name ∈ whitelist, IsValue name.toList) :
    lineSessions (gatewayCfgText port serverName whitelist) =
      whitelist.map fun name => ⟨"FIX.4.2", serverName, name⟩ := by
  have htext : ∀ template blocks : String, (template ++ "\n\n" ++ blocks ++ "\n").toList =
      template.toList ++ '\n' :: ([] ++ '\n' :: (blocks.toList ++ '\n' :: [])) := by
    intro template blocks
    simp only [String.toList_append, List.append_assoc]
    rfl
  have hblocks : ("\n\n".intercalate (whitelist.map (sessionBlock serverName))).toList =
      ['\n', '\n'].intercalate ((whitelist.map (sessionBlock serverName)).map String.toList) :=
      String.toList_intercalate
  have hsections : (whitelist.map (sessionSection serverName)).filterMap session? =
      whitelist.map fun name => ⟨"FIX.4.2", serverName, name⟩ := by
    rw [List.filterMap_map, ← List.filterMap_eq_map]
    exact List.filterMap_congr fun name _ => session?_sessionSection serverName name
  have htemplate : (readFrom [] ("\n".intercalate (gatewayCfgLines port)).toList).reverse.filterMap session? =
      [] := by
    refine List.filterMap_eq_nil_iff.2 fun s hs => ?_
    exact session?_template hport s (List.mem_reverse.1 hs)
  rw [lineSessions, Settings.read, gatewayCfgText, htext, hblocks, readFrom_append, readFrom_append, readFrom_nil,
    readFrom_append, readFrom_nil, readFrom_intercalate, foldl_readFrom_sessionBlock hserver h, List.reverse_append,
    List.reverse_reverse, List.filterMap_append, htemplate, hsections, List.nil_append]

/-- A session of a configuration has a name of one line. -/
private theorem newline_notMem_targetCompId {cfg : String} {x : Session} (h : x ∈ lineSessions cfg) :
    '\n' ∉ x.targetCompId.toList := by
  obtain ⟨s, hs, hx⟩ := List.mem_filterMap.1 h
  unfold session? at hx
  split at hx
  · obtain ⟨beginString, -, hx⟩ := Option.bind_eq_some_iff.1 hx
    obtain ⟨senderCompId, -, hx⟩ := Option.bind_eq_some_iff.1 hx
    obtain ⟨targetCompId, htarget, hx⟩ := Option.bind_eq_some_iff.1 hx
    cases hx
    show '\n' ∉ (String.ofList targetCompId).toList
    rw [String.toList_ofList]
    exact Settings.newline_notMem hs htarget
  · cases hx

/-- A reader that goes through the lines. -/
def lineReader : SettingsReader where
  sessions := lineSessions
  sessions_of_blocks hport hserver hnames _ :=
    lineSessions_cfg (isValue_of_isEntry hport) (isValue_of_isEntry hserver)
      fun name hname => isValue_of_isEntry (hnames name hname)
  newline_notMem := newline_notMem_targetCompId

/-- The texts of strings and integers. -/
def samplePrinter : Printer where
  str
    | .string text => text
    | .int64 n => toString n
    | _ => ""
  string _ := rfl
  int64 _ := rfl

/-- The server of `ann` with one market maker lets in both. -/
theorem deployed_whitelist_sample : ∃ s w', ∃ d ∈ serviceDeployments s, ∃ cfg,
    openServer (calmEnv fun _ _ => none) (sampleRequest ["GME"] ["ann"] 1) sampleWorld = (.ok s, w') ∧
    s.allowlistNames = ["ann", "mm1"] ∧ d.serviceName = "gateway" ∧
    gatewayServerCfg samplePrinter "template/gateway_server.cfg" (some gatewayCfgTemplate) "alpha" d.params =
      .ok cfg ∧ LetsIn lineReader cfg "alpha" ["ann", "mm1"] := by
  have hrun : ∃ s w', openServer (calmEnv fun _ _ => none) (sampleRequest ["GME"] ["ann"] 1) sampleWorld =
      (.ok s, w') ∧ s.allowlistNames = ["ann", "mm1"] ∧ s.config.serverName = "alpha" :=
      Effect.exists_of_run (by decide +kernel)
  obtain ⟨s, w', hopen, hnames, hserver⟩ := hrun
  have hlisted : ∀ name ∈ s.allowlistNames, Listed name := by
    rw [hnames]
    decide +kernel
  obtain ⟨d, hd, hgateway⟩ := exists_gateway s
  obtain ⟨-, cfg, hcfg, hlets⟩ :=
    (deployed_whitelist_iff _ samplePrinter lineReader "template/gateway_server.cfg" _ _ _ s d hopen hd hgateway).2
      hlisted
  rw [(eq_gateway hd hgateway).1, hserver] at hcfg
  rw [hserver, hnames] at hlets
  exact ⟨s, w', d, hd, cfg, hopen, hnames, hgateway, hcfg, hlets⟩

/-- A user signs up as `bob,ann` and is put on the allowlist of a server.  The deployment server reads two names, so
that the gateway, whatever its reader, lets in `ann`, who is not on the allowlist, and not the user who is. -/
theorem whitelist_splits_name : ∃ w₁ s w₂, ∃ d ∈ serviceDeployments s, ∃ cfg,
    handleSignup (calmEnv fun _ _ => none) [("user_name", "bob,ann"), ("password", "x")] sampleWorld =
      (.ok ⟨true, ""⟩, w₁) ∧
    openServer (calmEnv fun _ _ => none) (sampleRequest ["GME"] ["bob,ann"] 0) w₁ = (.ok s, w₂) ∧
    s.allowlistNames = ["bob,ann"] ∧ d.serviceName = "gateway" ∧
    d.params.lookup "whitelist" = some (.string "bob,ann") ∧
    parseCsvString (.string "bob,ann") "whitelist" = .ok ["bob", "ann"] ∧
    gatewayServerCfg samplePrinter "template/gateway_server.cfg" (some gatewayCfgTemplate) "alpha" d.params =
      .ok cfg ∧
    ∀ reader : SettingsReader,
      reader.sessions cfg = [⟨"FIX.4.2", "alpha", "bob"⟩, ⟨"FIX.4.2", "alpha", "ann"⟩] ∧
        ¬ LetsIn reader cfg "alpha" s.allowlistNames := by
  have hsignup : (handleSignup (calmEnv fun _ _ => none)
      [("user_name", "bob,ann"), ("password", "x")] sampleWorld).1 = .ok ⟨true, ""⟩ := by decide +kernel
  have hrun : ∃ s w₂, openServer (calmEnv fun _ _ => none) (sampleRequest ["GME"] ["bob,ann"] 0)
      (handleSignup (calmEnv fun _ _ => none) [("user_name", "bob,ann"), ("password", "x")] sampleWorld).2 =
        (.ok s, w₂) ∧ s.allowlistNames = ["bob,ann"] := Effect.exists_of_run (by decide +kernel)
  obtain ⟨s, w₂, hopen, hnames⟩ := hrun
  obtain ⟨d, hd, hgateway⟩ := exists_gateway s
  obtain ⟨-, ⟨port, hport⟩, hraw⟩ := eq_gateway hd hgateway
  rw [hnames, show joinCsv ["bob,ann"] = "bob,ann" from rfl] at hraw
  have hparse : parseCsvString (.string "bob,ann") "whitelist" = .ok ["bob", "ann"] := by decide +kernel
  have hcfg := gatewayServerCfg_eq samplePrinter "template/gateway_server.cfg" "alpha" hport hraw hparse
  refine ⟨_, s, w₂, d, hd, _, eq_of_fst hsignup, hopen, hnames, hgateway, hraw, hparse, hcfg, fun reader => ?_⟩
  have hsessions : reader.sessions (gatewayCfgText (toString port) "alpha" ["bob", "ann"]) =
      [⟨"FIX.4.2", "alpha", "bob"⟩, ⟨"FIX.4.2", "alpha", "ann"⟩] :=
    reader.sessions_of_blocks (isEntry_toString port) (by decide +kernel) (by decide +kernel) (by decide)
  refine ⟨hsessions, fun hlets => ?_⟩
  have hann := hlets "ann"
  rw [hsessions, hnames] at hann
  revert hann
  decide +kernel

end Elsa.Deployment
