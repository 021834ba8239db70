import Mathlib.Data.List.Basic
import Elsa.Base.Effects
import Elsa.Base.Glob

/-!
# The instances on a host

`deploy_service` installs a service for a server under an instance name, which is joined with `-` from the service,
for the traders a group tag, and the server; `remove_service` takes away the unit file and then the install directory
of each instance that it finds.  For the traders it finds them with the pattern `service-*-server.service`.  Each
command and each deletion may fail, and then what comes after it is left undone.

Server names and tags may hold `-` themselves.  So two instances of different servers may get one name, and the
pattern for one server may match an instance of another; apart from that exactly the instances of the server go
(`removal_exact_iff`).
-/

namespace Elsa.Deployment

open Base

/-- The keys of `SUPPORTED_SERVICES`. -/
inductive Service
  | mdp
  | me
  | oms
  | gateway
  | mm
  | nt
  | it
  | oracle
deriving DecidableEq, Repr

namespace Service

def name : Service → String
  | mdp => "mdp"
  | me => "me"
  | oms => "oms"
  | gateway => "gateway"
  | mm => "mm"
  | nt => "nt"
  | it => "it"
  | oracle => "oracle"

def supported : List Service := [mdp, me, oms, gateway, mm, nt, it, oracle]

def find? (serviceName : String) : Option Service := supported.find? fun s => s.name = serviceName

/-- The services `{"mm", "nt", "it"}`. -/
def grouped : Service → Bool
  | mm | nt | it => true
  | _ => false

end Service

/-- The message of a `DeploymentError`. -/
abbrev DeploymentError := String

/-- Python's `str.isalnum` on one character; below 128 it is the ASCII letters and digits. -/
structure Alphabet where
  isalnum : Char → Bool
  ascii : ∀ c : Char, c.toNat < 128 → isalnum c = c.isAlphanum

def Alphabet.admits (al : Alphabet) (c : Char) : Bool := al.isalnum c || c == '-' || c == '_'

/-- The two checks of a name, which differ in their messages. -/
def validateName (al : Alphabet) (missing wrong : DeploymentError) (name : String) : Except DeploymentError Unit :=
  if name.toList = [] then .error missing
  else if name.toList.all al.admits then .ok ()
  else .error wrong

def validateServerName (al : Alphabet) : String → Except DeploymentError Unit :=
  validateName al "server_name is required" "server_name can only contain letters, digits, '-' and '_'"

def validateGroupTag (al : Alphabet) : String → Except DeploymentError Unit :=
  validateName al "'group_tag' cannot be empty" "'group_tag' can only contain letters, digits, '-' and '_'"

/-- The names of the files in `SYSTEMD_DIR` and of the directories in `INSTALL_BASE_DIR`. -/
structure Host where
  units : List String
  dirs : List String
deriving DecidableEq, Repr

/-- Nothing is deployed. -/
def Host.empty : Host := ⟨[], []⟩

def instanceName (service : String) (groupTag : Option String) (server : String) : String :=
  match groupTag with
  | some tag => service ++ "-" ++ tag ++ "-" ++ server
  | none => service ++ "-" ++ server

def unitFile (instName : String) : String := instName ++ ".service"

/-- What `remove_service` asks of the host: a command, the deletion of a unit file, that of an install directory. -/
inductive HostCall
  | cmd (args : List String)
  | unlink (unit : String)
  | rmtree (instName : String)
deriving DecidableEq, Repr

/-- What ends a request: a `DeploymentError`, or the `OSError` of a deletion. -/
inductive HostError
  | deployment (text : DeploymentError)
  | os (call : HostCall)
deriving DecidableEq, Repr

abbrev Action (α : Type) := Effect Host HostError α

/-- A check without effect. -/
def check {α : Type} (r : Except DeploymentError α) : Action α := Effect.lift (r.mapError .deployment)

/-- The install directory is made and the unit file is written. -/
def install (instName : String) : Action Unit := fun host =>
  (.ok (), ⟨host.units.insert (unitFile instName), host.dirs.insert instName⟩)

/-- The group tag, if there is one; it is an unknown field for a service without groups. -/
def checkGroupTag (al : Alphabet) (service : Service) : Option String → Except DeploymentError Unit
  | none => .ok ()
  | some tag =>
    if service.grouped then validateGroupTag al tag
    else .error ("Unknown config fields for service '" ++ service.name ++ "': group_tag")

/-- `deploy_service` as far as it settles the name of the instance; `groupTag` is the stripped text of
`params["group_tag"]`. -/
def deployService (al : Alphabet) (serviceName serverName : String) (groupTag : Option String) : Action String := do
  let service ← check (match Service.find? serviceName with
    | some service => .ok service
    | none => .error ("Unsupported service_name '" ++ serviceName ++
        "'. Supported values: gateway, it, mdp, me, mm, nt, oms, oracle"))
  check (validateServerName al serverName)
  check (checkGroupTag al service groupTag)
  let instName := instanceName service.name groupTag serverName
  install instName
  return instName

/-- The unit files that `remove_service` looks at. -/
def matchingServicePaths (service : Service) (serverName : String) (host : Host) : List String :=
  let legacy := unitFile (service.name ++ "-" ++ serverName)
  if service.grouped then
    let pattern := Glob.parse (service.name ++ "-*-" ++ serverName ++ ".service").toList
    let found := host.units.filter fun unit => Glob.matches_ pattern unit.toList
    (found ++ if legacy ∈ host.units then [legacy] else []).eraseDups
  else [legacy]

/-- `_run_cmd`: `run` says whether a call succeeds; a command that does not end with 0 is named in the error. -/
def runCmd (run : HostCall → Bool) (cmd : List String) : Action Unit :=
  if run (.cmd cmd) then pure () else Effect.fail (.deployment ("Command failed: " ++ " ".intercalate cmd))

/-- `service_path.unlink()`. -/
def unlink (run : HostCall → Bool) (unit : String) : Action Unit := fun host =>
  if run (.unlink unit) then (.ok (), { host with units := host.units.filter (· ≠ unit) })
  else (.error (.os (.unlink unit)), host)

/-- `shutil.rmtree(install_dir)`, if it exists. -/
def rmtree (run : HostCall → Bool) (instName : String) : Action Unit := fun host =>
  if instName ∉ host.dirs then (.ok (), host)
  else if run (.rmtree instName) then (.ok (), { host with dirs := host.dirs.filter (· ≠ instName) })
  else (.error (.os (.rmtree instName)), host)

/-- The name of the instance that a unit file belongs to. -/
def instanceOf (unit : String) : String :=
  String.ofList (unit.toList.take (unit.toList.length - ".service".toList.length))

/-- The body of the loop of `remove_service`: whether the file was there, and which instance it belongs to. -/
def removeUnit (run : HostCall → Bool) (unit : String) : Action (Option String) := fun host =>
  if unit ∈ host.units then
    (do
      runCmd run ["systemctl", "stop", unit]
      runCmd run ["systemctl", "disable", unit]
      unlink run unit
      rmtree run (instanceOf unit)
      return some (instanceOf unit) : Action (Option String)) host
  else (.ok none, host)

/-- The instances that were removed. -/
def removeService (al : Alphabet) (run : HostCall → Bool) (serviceType serverName : String) :
    Action (List String) := do
  let service ← check (match Service.find? serviceType with
    | some service => .ok service
    | none => .error ("Unsupported service_type '" ++ serviceType ++
        "'. Supported values: gateway, it, mdp, me, mm, nt, oms, oracle"))
  check (validateServerName al serverName)
  let paths ← fun host => (.ok (matchingServicePaths service serverName host), host)
  let removed ← Effect.collect (removeUnit run) paths
  runCmd run ["systemctl", "daemon-reload"]
  return removed.filterMap id

/-! ### What is claimed of a host -/

/-- A service that was deployed for a server, in a group or not. -/
structure Instance where
  service : Service
  groupTag : Option String
  server : String
deriving DecidableEq, Repr

namespace Instance

def name (x : Instance) : String := instanceName x.service.name x.groupTag x.server

def deploy (al : Alphabet) (x : Instance) : Action String := deployService al x.service.name x.server x.groupTag

/-- The part of the name after the service. -/
def label (x : Instance) : String :=
  match x.groupTag with
  | some tag => tag ++ "-" ++ x.server
  | none => x.server

end Instance

/-- The names of the instances are different, and of the unit files and install directories those of the service for
the server are gone and the others are there. -/
def Exact (deployed : List Instance) (service : Service) (serverName : String) (host : Host) : Prop :=
  (∀ x ∈ deployed, ∀ y ∈ deployed, x ≠ y → x.name ≠ y.name) ∧
    ∀ x ∈ deployed, (unitFile x.name ∈ host.units ↔ ¬ (x.service = service ∧ x.server = serverName)) ∧
      (x.name ∈ host.dirs ↔ ¬ (x.service = service ∧ x.server = serverName))

/-- The server of `y` is that of `x` with `w-` before it, and the tag of `x` is that of `y` with `-w` after it. -/
def Extends (x y : Instance) : Prop :=
  ∃ w, y.server = w ++ "-" ++ x.server ∧
    x.groupTag = some (match y.groupTag with
      | some tag => tag ++ "-" ++ w
      | none => w)

/-- The name of the server of `x` ends in `-` and `serverName`, or `serverName` is a whole tag of `x` or an end of
it, `-`, and the server of `x`. -/
def Caught (serverName : String) (x : Instance) : Prop :=
  (∃ w, x.server = w ++ "-" ++ serverName) ∨
    ∃ u, serverName = u ++ "-" ++ x.server ∧ (x.groupTag = some u ∨ ∃ tag, x.groupTag = some (tag ++ "-" ++ u))

/-- The names tell the instances apart, and the pattern for the server catches none of another server. -/
def Separate (deployed : List Instance) (service : Service) (serverName : String) : Prop :=
  (∀ x ∈ deployed, ∀ y ∈ deployed, x.service = y.service → ¬ Extends x y) ∧
    (service.grouped = true → ∀ x ∈ deployed, x.service = service → ¬ Caught serverName x)

/-! ### Names -/

theorem dash_eq_dash {t t' s s' : String} :
    t ++ "-" ++ s = t' ++ "-" ++ s' ↔
      (t = t' ∧ s = s') ∨ (∃ w, t' = t ++ "-" ++ w ∧ s = w ++ "-" ++ s') ∨ ∃ w, t = t' ++ "-" ++ w ∧
      s' = w ++ "-" ++ s := by
  have hlist : ∀ a b c : String, a = b ++ "-" ++ c ↔ a.toList = b.toList ++ '-' :: c.toList := fun a b c => by
    rw [← String.toList_inj]
    simp
  have hword : ∀ p : List Char → Prop, (∃ w : String, p w.toList) ↔ ∃ w, p w := by
    intro p
    constructor
    · rintro ⟨w, h⟩
      exact ⟨w.toList, h⟩
    · rintro ⟨w, h⟩
      exact ⟨String.ofList w, by rwa [String.toList_ofList]⟩
  simp only [hlist, String.toList_append, hword fun w => t'.toList = t.toList ++ '-' :: w ∧
    s.toList = w ++ '-' :: s'.toList, hword fun w => t.toList = t'.toList ++ '-' :: w ∧
    s'.toList = w ++ '-' :: s.toList, ← String.toList_inj]
  exact (show _ ↔ _ by simp).trans append_cons_eq_append_cons

private theorem length_lt_of_dash {s s' w : String} (h : s = w ++ "-" ++ s') :
    s'.toList.length < s.toList.length := by
  simp [h]
  omega

theorem Service.name_find (s : Service) : Service.find? s.name = some s := by
  cases s <;> decide

private theorem Service.name_inj {s s' : Service} (h : s.name = s'.name) : s = s' :=
  Option.some.inj (by rw [← name_find s, ← name_find s', h])

private theorem Service.dash_notMem (s : Service) : '-' ∉ s.name.toList := by
  cases s <;> decide

/-- No service name holds a dash, so that the first dash ends it. -/
theorem service_dash {s s' : Service} {l l' : String} :
    s.name ++ "-" ++ l = s'.name ++ "-" ++ l' ↔ s = s' ∧ l = l' := by
  constructor
  · intro h
    rcases dash_eq_dash.1 h with ⟨hs, hl⟩ | ⟨w, hs, _⟩ | ⟨w, hs, _⟩
    · exact ⟨Service.name_inj hs, hl⟩
    · exact absurd (by simp [hs]) s'.dash_notMem
    · exact absurd (by simp [hs]) s.dash_notMem
  · rintro ⟨rfl, rfl⟩
    rfl

namespace Instance

theorem name_eq (x : Instance) : x.name = x.service.name ++ "-" ++ x.label := by
  unfold name label instanceName
  cases x.groupTag with
  | none => rfl
  | some tag => simp only [String.append_assoc]

private theorem name_eq_name {x y : Instance} : x.name = y.name ↔ x.service = y.service ∧ x.label = y.label := by
  rw [name_eq, name_eq, service_dash]

/-- Two ways to read a label differ in how much of it is the server. -/
private theorem label_eq_label {x y : Instance} :
    x.label = y.label ↔ (x.groupTag = y.groupTag ∧ x.server = y.server) ∨ Extends x y ∨ Extends y x := by
  unfold label Extends
  cases hx : x.groupTag with
  | none =>
    cases hy : y.groupTag with
    | none => simp
    | some t' =>
      simp only [reduceCtorEq, false_and, and_false, exists_const, false_or, Option.some.injEq]
      constructor
      · intro h
        exact ⟨t', h, rfl⟩
      · rintro ⟨w, h, rfl⟩
        exact h
  | some t =>
    cases hy : y.groupTag with
    | none =>
      simp only [reduceCtorEq, false_and, and_false, exists_const, false_or, or_false, Option.some.injEq]
      constructor
      · intro h
        exact ⟨t, h.symm, rfl⟩
      · rintro ⟨w, h, rfl⟩
        exact h.symm
    | some t' =>
      simp only [Option.some.injEq]
      rw [dash_eq_dash]
      constructor
      · rintro (h | ⟨w, ht, hs⟩ | ⟨w, ht, hs⟩)
        · exact .inl h
        · exact .inr (.inr ⟨w, hs, ht⟩)
        · exact .inr (.inl ⟨w, hs, ht⟩)
      · rintro (h | ⟨w, hs, ht⟩ | ⟨w, hs, ht⟩)
        · exact .inl h
        · exact .inr (.inr ⟨w, ht, hs⟩)
        · exact .inr (.inl ⟨w, ht, hs⟩)

end Instance

theorem Extends.ne {x y : Instance} (h : Extends x y) : x ≠ y := by
  rintro rfl
  obtain ⟨w, hs, _⟩ := h
  exact (length_lt_of_dash hs).ne rfl

private theorem names_distinct_iff (deployed : List Instance) :
    (∀ x ∈ deployed, ∀ y ∈ deployed, x ≠ y → x.name ≠ y.name) ↔
      ∀ x ∈ deployed, ∀ y ∈ deployed, x.service = y.service → ¬ Extends x y := by
  constructor
  · intro h x hx y hy hs hext
    exact h x hx y hy hext.ne (Instance.name_eq_name.2 ⟨hs, Instance.label_eq_label.2 (.inr (.inl hext))⟩)
  · intro h x hx y hy hne hname
    obtain ⟨hs, hlabel⟩ := Instance.name_eq_name.1 hname
    rcases Instance.label_eq_label.1 hlabel with ⟨htag, hserver⟩ | hext | hext
    · cases x
      cases y
      exact hne (by simp_all)
    · exact h x hx y hy hs hext
    · exact h y hy x hx hs.symm hext

/-- The label ends in a dash and the name of the server, or is this name. -/
def Selected (serverName : String) (x : Instance) : Prop :=
  x.label = serverName ∨ x.service.grouped = true ∧ ∃ p, x.label = p ++ "-" ++ serverName

theorem selected_iff (serverName : String) {x : Instance} (htag : ∀ tag ∈ x.groupTag, x.service.grouped = true) :
    Selected serverName x ↔ x.server = serverName ∨ x.service.grouped = true ∧ Caught serverName x := by
  unfold Selected Instance.label Caught
  cases hx : x.groupTag with
  | none => simp
  | some t =>
    have hgrouped := htag t hx
    simp only [hgrouped, true_and, Option.some.injEq, dash_eq_dash]
    constructor
    · rintro (h | ⟨p, ⟨_, h⟩ | ⟨w, _, h⟩ | ⟨w, ht, h⟩⟩)
      · exact .inr (.inr ⟨t, h.symm, .inl rfl⟩)
      · exact .inl h
      · exact .inr (.inl ⟨w, h⟩)
      · exact .inr (.inr ⟨w, h, .inr ⟨p, ht⟩⟩)
    · rintro (h | ⟨w, h⟩ | ⟨u, h, rfl | ⟨p, ht⟩⟩)
      · exact .inr ⟨t, .inl ⟨rfl, h⟩⟩
      · exact .inr ⟨t ++ "-" ++ w, .inr (.inl ⟨w, rfl, h⟩)⟩
      · exact .inl h.symm
      · exact .inr ⟨p, .inr (.inr ⟨u, ht, h⟩)⟩

/-- One of the two names of servers is longer than the other. -/
private theorem Caught.length_ne {serverName : String} {x : Instance} (h : Caught serverName x) :
    x.server.toList.length ≠ serverName.toList.length := by
  rcases h with ⟨w, hw⟩ | ⟨u, hu, _⟩
  · exact (length_lt_of_dash hw).ne'
  · exact (length_lt_of_dash hu).ne

/-! ### The unit files that are found -/

/-- A name that passed its check. -/
theorem validateName_eq_ok {al : Alphabet} {missing wrong : DeploymentError} {name : String} {u : Unit} :
    validateName al missing wrong name = .ok u ↔ name.toList ≠ [] ∧ ∀ c ∈ name.toList, al.admits c = true := by
  unfold validateName
  split
  · simp_all
  · split <;> simp_all

/-- Of the letters that have a meaning in a pattern none is admitted. -/
theorem Alphabet.plain (al : Alphabet) {text : List Char} (h : ∀ c ∈ text, al.admits c = true) :
    '*' ∉ text ∧ '?' ∉ text := by
  have hstar : al.admits '*' = false := by
    rw [admits, al.ascii '*' (by decide)]
    decide
  have hone : al.admits '?' = false := by
    rw [admits, al.ascii '?' (by decide)]
    decide
  refine ⟨fun hmem => ?_, fun hmem => ?_⟩
  · exact absurd (h _ hmem) (by simp [hstar])
  · exact absurd (h _ hmem) (by simp [hone])

theorem Service.plain (s : Service) : '*' ∉ s.name.toList ∧ '?' ∉ s.name.toList := by
  cases s <;> decide

theorem unitFile_inj {n n' : String} : unitFile n = unitFile n' ↔ n = n' := by
  rw [unitFile, unitFile, ← String.toList_inj, ← String.toList_inj, String.toList_append, String.toList_append,
    List.append_left_inj]

/-- The pattern of a service and a server. -/
theorem parse_pattern (s : Service) {serverName : String}
    (hplain : '*' ∉ serverName.toList ∧ '?' ∉ serverName.toList) :
    Glob.parse (s.name ++ "-*-" ++ serverName ++ ".service").toList =
      (s.name ++ "-").toList.map .literal ++ .anyMany :: ("-" ++ serverName ++ ".service").toList.map .literal := by
  have hsplit : (s.name ++ "-*-" ++ serverName ++ ".service").toList =
      (s.name ++ "-").toList ++ '*' :: ("-" ++ serverName ++ ".service").toList := by
    simp
  have hleft : Glob.parse (s.name ++ "-").toList = (s.name ++ "-").toList.map .literal :=
    Glob.parse_of_plain (by simp [s.plain.1]) (by simp [s.plain.2])
  have hright : Glob.parse ("-" ++ serverName ++ ".service").toList =
      ("-" ++ serverName ++ ".service").toList.map .literal :=
    Glob.parse_of_plain (by simp [hplain.1]) (by simp [hplain.2])
  rw [hsplit, ← hleft, ← hright]
  simp [Glob.parse]

private theorem matches_pattern {s : Service} {serverName : String}
    (hplain : '*' ∉ serverName.toList ∧ '?' ∉ serverName.toList) (x : Instance) :
    Glob.matches_ (Glob.parse (s.name ++ "-*-" ++ serverName ++ ".service").toList) (unitFile x.name).toList = true ↔
      x.service = s ∧ ∃ p, x.label = p ++ "-" ++ serverName := by
  rw [parse_pattern s hplain, Glob.matches_around]
  constructor
  · rintro ⟨m, hm⟩
    have hm' : unitFile x.name = unitFile (s.name ++ "-" ++ (String.ofList m ++ "-" ++ serverName)) := by
      rw [← String.toList_inj, hm]
      simp [unitFile]
    rw [unitFile_inj, Instance.name_eq, service_dash] at hm'
    exact ⟨hm'.1, String.ofList m, hm'.2⟩
  · rintro ⟨rfl, p, hp⟩
    refine ⟨p.toList, ?_⟩
    rw [Instance.name_eq, hp]
    simp [unitFile]

theorem mem_matchingServicePaths {s : Service} {serverName : String}
    (hplain : '*' ∉ serverName.toList ∧ '?' ∉ serverName.toList) {host : Host} {x : Instance}
    (hx : unitFile x.name ∈ host.units) :
    unitFile x.name ∈ matchingServicePaths s serverName host ↔ x.service = s ∧ Selected serverName x := by
  have hlegacy : unitFile x.name = unitFile (s.name ++ "-" ++ serverName) ↔ x.service = s ∧ x.label = serverName := by
    rw [unitFile_inj, Instance.name_eq, service_dash]
  unfold matchingServicePaths Selected
  by_cases hg : s.grouped = true
  · have hmem : unitFile x.name ∈ (if unitFile (s.name ++ "-" ++ serverName) ∈ host.units then
        [unitFile (s.name ++ "-" ++ serverName)] else []) ↔ x.service = s ∧ x.label = serverName := by
      rw [← hlegacy]
      split
      · exact List.mem_singleton
      · rename_i hnot
        exact ⟨fun h => absurd h List.not_mem_nil, fun h => absurd (h ▸ hx) hnot⟩
    simp only [if_pos hg, List.mem_eraseDups, List.mem_append, List.mem_filter, hx, true_and,
      matches_pattern hplain, hmem]
    constructor
    · rintro (⟨rfl, h⟩ | ⟨rfl, h⟩)
      · exact ⟨rfl, .inr ⟨hg, h⟩⟩
      · exact ⟨rfl, .inl h⟩
    · rintro ⟨rfl, h | ⟨_, h⟩⟩
      · exact .inr ⟨rfl, h⟩
      · exact .inl ⟨rfl, h⟩
  · simp only [if_neg hg, List.mem_singleton, hlegacy]
    constructor
    · rintro ⟨rfl, h⟩
      exact ⟨rfl, .inl h⟩
    · rintro ⟨rfl, h | ⟨h, _⟩⟩
      · exact ⟨rfl, h⟩
      · exact absurd h hg

/-! ### Deployment -/

private theorem check_eq_ok {α : Type} {r : Except DeploymentError α} {a : α} {host host' : Host}
    (h : check r host = (.ok a, host')) : r = .ok a ∧ host = host' := by
  obtain ⟨hr, hhost⟩ := Prod.mk.inj h
  cases r with
  | error e => cases hr
  | ok b => exact ⟨congrArg Except.ok (Except.ok.inj hr), hhost⟩

/-- What `deploy_service` admits. -/
structure Admitted (al : Alphabet) (x : Instance) : Prop where
  server : validateServerName al x.server = .ok ()
  tag : ∀ tag ∈ x.groupTag, x.service.grouped = true ∧ validateGroupTag al tag = .ok ()

theorem Admitted.grouped {al : Alphabet} {x : Instance} (h : Admitted al x) :
    ∀ tag ∈ x.groupTag, x.service.grouped = true :=
  fun tag htag => (h.tag tag htag).1

private theorem checkGroupTag_eq_ok {al : Alphabet} {service : Service} {groupTag : Option String}
    (h : checkGroupTag al service groupTag = .ok ()) :
    ∀ tag ∈ groupTag, service.grouped = true ∧ validateGroupTag al tag = .ok () := by
  rintro tag rfl
  by_cases hg : service.grouped = true
  · exact ⟨hg, (if_pos hg).symm.trans h⟩
  · cases (if_neg hg).symm.trans h

private theorem deploy_eq_ok {al : Alphabet} {x : Instance} {host host' : Host} {n : String}
    (h : x.deploy al host = (.ok n, host')) :
    Admitted al x ∧ host' = ⟨host.units.insert (unitFile x.name), host.dirs.insert x.name⟩ := by
  unfold Instance.deploy deployService at h
  rw [Service.name_find] at h
  obtain ⟨_, _, hlift, h⟩ := Effect.bind_eq_ok.1 h
  cases hlift
  obtain ⟨_, _, hcheck, h⟩ := Effect.bind_eq_ok.1 h
  obtain ⟨hserver, rfl⟩ := check_eq_ok hcheck
  obtain ⟨_, _, hcheck, h⟩ := Effect.bind_eq_ok.1 h
  obtain ⟨htag, rfl⟩ := check_eq_ok hcheck
  cases h
  exact ⟨⟨hserver, checkGroupTag_eq_ok htag⟩, rfl⟩

/-- The host after the deployments of a list: each was admitted, and its file and directory are there. -/
private theorem deployed_eq_ok {al : Alphabet} {deployed : List Instance} {host host' : Host} {names : List String}
    (h : Effect.collect (Instance.deploy al) deployed host = (.ok names, host')) :
    (∀ x ∈ deployed, Admitted al x) ∧ (∀ u, u ∈ host'.units ↔ u ∈ host.units ∨ ∃ x ∈ deployed, u = unitFile x.name) ∧
      ∀ d, d ∈ host'.dirs ↔ d ∈ host.dirs ∨ ∃ x ∈ deployed, d = x.name := by
  induction deployed generalizing host names with
  | nil =>
    cases h
    simp
  | cons x deployed ih =>
    obtain ⟨n, host₁, hx, h⟩ := Effect.bind_eq_ok.1 h
    obtain ⟨ns, host₂, hrest, h⟩ := Effect.bind_eq_ok.1 h
    cases h
    obtain ⟨hadm, rfl⟩ := deploy_eq_ok hx
    obtain ⟨hall, hunits, hdirs⟩ := ih hrest
    refine ⟨List.forall_mem_cons.2 ⟨hadm, hall⟩, fun u => ?_, fun d => ?_⟩
    · rw [hunits, List.mem_insert_iff, List.exists_mem_cons_iff]
      tauto
    · rw [hdirs, List.mem_insert_iff, List.exists_mem_cons_iff]
      tauto

/-! ### Removal -/

theorem instanceOf_unitFile (n : String) : instanceOf (unitFile n) = n := by
  have h : (unitFile n).toList.take ((unitFile n).toList.length - ".service".toList.length) = n.toList := by
    rw [unitFile, String.toList_append, List.length_append, Nat.add_sub_cancel, List.take_left]
  rw [instanceOf, h, String.ofList_toList]

private theorem runCmd_of_true {run : HostCall → Bool} (hrun : ∀ call, run call = true) (cmd : List String) :
    runCmd run cmd = pure () :=
  if_pos (hrun (.cmd cmd))

private theorem unlink_of_true {run : HostCall → Bool} (hrun : ∀ call, run call = true) (unit : String) :
    unlink run unit = fun host => (.ok (), { host with units := host.units.filter (· ≠ unit) }) :=
  funext fun _ => if_pos (hrun (.unlink unit))

private theorem rmtree_of_true {run : HostCall → Bool} (hrun : ∀ call, run call = true) (instName : String) :
    rmtree run instName = fun host => (.ok (), { host with dirs := host.dirs.filter (· ≠ instName) }) := by
  funext host
  unfold rmtree
  split
  · rename_i hnot
    have hall : host.dirs.filter (· ≠ instName) = host.dirs :=
      List.filter_eq_self.2 fun d hd => decide_eq_true (ne_of_mem_of_not_mem hd hnot)
    rw [hall]
  · exact if_pos (hrun (.rmtree instName))

private theorem removeUnit_eq {run : HostCall → Bool} (hrun : ∀ call, run call = true) (unit : String) (host : Host) :
    removeUnit run unit host =
      if unit ∈ host.units then
        (.ok (some (instanceOf unit)), ⟨host.units.filter (· ≠ unit), host.dirs.filter (· ≠ instanceOf unit)⟩)
      else (.ok none, host) := by
  unfold removeUnit
  rw [runCmd_of_true hrun, runCmd_of_true hrun, unlink_of_true hrun, rmtree_of_true hrun]
  rfl

/-- What is left after the loop. -/
private theorem collect_removeUnit {run : HostCall → Bool} (hrun : ∀ call, run call = true) (paths : List String)
    (host : Host) :
    ∃ removed host', Effect.collect (removeUnit run) paths host = (.ok removed, host') ∧
      (∀ u, u ∈ host'.units ↔ u ∈ host.units ∧ u ∉ paths) ∧
      ∀ d, d ∈ host'.dirs ↔ d ∈ host.dirs ∧ ∀ u ∈ paths, u ∈ host.units → d ≠ instanceOf u := by
  induction paths generalizing host with
  | nil => exact ⟨[], host, rfl, by simp, by simp⟩
  | cons unit paths ih =>
    by_cases hmem : unit ∈ host.units
    · have hunit := removeUnit_eq hrun unit host
      rw [if_pos hmem] at hunit
      obtain ⟨removed, host', hrest, hunits, hdirs⟩ :=
        ih ⟨host.units.filter (· ≠ unit), host.dirs.filter (· ≠ instanceOf unit)⟩
      refine ⟨some (instanceOf unit) :: removed, host', ?_, fun u => ?_, fun d => ?_⟩
      · exact Effect.bind_eq_ok.2 ⟨_, _, hunit, Effect.bind_eq_ok.2 ⟨_, _, hrest, rfl⟩⟩
      · rw [hunits]
        simp [and_assoc]
      · rw [hdirs]
        simp only [List.mem_filter, decide_eq_true_eq, List.forall_mem_cons]
        constructor
        · rintro ⟨⟨hd, hne⟩, hall⟩
          refine ⟨hd, fun _ => hne, fun u hu hu' => ?_⟩
          by_cases heq : u = unit
          · exact heq ▸ hne
          · exact hall u hu ⟨hu', heq⟩
        · rintro ⟨hd, hne, hall⟩
          exact ⟨⟨hd, hne hmem⟩, fun u hu hu' => hall u hu hu'.1⟩
    · have hunit := removeUnit_eq hrun unit host
      rw [if_neg hmem] at hunit
      obtain ⟨removed, host', hrest, hunits, hdirs⟩ := ih host
      refine ⟨none :: removed, host', ?_, fun u => ?_, fun d => ?_⟩
      · exact Effect.bind_eq_ok.2 ⟨_, _, hunit, Effect.bind_eq_ok.2 ⟨_, _, hrest, rfl⟩⟩
      · rw [hunits, List.mem_cons, not_or]
        exact ⟨fun h => ⟨h.1, ne_of_mem_of_not_mem h.1 hmem, h.2⟩, fun h => ⟨h.1, h.2.2⟩⟩
      · rw [hdirs, List.forall_mem_cons]
        exact ⟨fun h => ⟨h.1, fun hu => absurd hu hmem, h.2⟩, fun h => ⟨h.1, h.2.2⟩⟩

theorem removeService_eq {al : Alphabet} {run : HostCall → Bool} (hrun : ∀ call, run call = true) (s : Service)
    {serverName : String} (hserver : validateServerName al serverName = .ok ()) (host : Host) :
    ∃ removed host', removeService al run s.name serverName host = (.ok removed, host') ∧
      (∀ u, u ∈ host'.units ↔ u ∈ host.units ∧ u ∉ matchingServicePaths s serverName host) ∧
      ∀ d, d ∈ host'.dirs ↔ d ∈ host.dirs ∧ ∀ u ∈ matchingServicePaths s serverName host, u ∈ host.units →
        d ≠ instanceOf u := by
  obtain ⟨removed, host', hrest, hunits, hdirs⟩ :=
    collect_removeUnit hrun (matchingServicePaths s serverName host) host
  refine ⟨removed.filterMap id, host', ?_, hunits, hdirs⟩
  unfold removeService
  rw [Service.name_find, hserver, runCmd_of_true hrun]
  exact Effect.bind_eq_ok.2 ⟨_, _, rfl, Effect.bind_eq_ok.2 ⟨_, _, rfl, Effect.bind_eq_ok.2 ⟨_, _, rfl,
    Effect.bind_eq_ok.2 ⟨_, _, hrest, rfl⟩⟩⟩⟩

/-- After any deployments `remove_service` takes away the file and the directory of the instances that its pattern
selects. -/
private theorem exists_removed {al : Alphabet} {run : HostCall → Bool} {deployed : List Instance}
    {names : List String} {host : Host} {s : Service} {serverName : String}
    (hdeployed : Effect.collect (Instance.deploy al) deployed Host.empty = (.ok names, host))
    (hrun : ∀ call, run call = true) (hserver : validateServerName al serverName = .ok ()) :
    ∃ removed host', removeService al run s.name serverName host = (.ok removed, host') ∧ ∀ x ∈ deployed,
      (unitFile x.name ∈ host'.units ↔ ¬ (x.service = s ∧ Selected serverName x)) ∧
      (x.name ∈ host'.dirs ↔ ¬ (x.service = s ∧ Selected serverName x)) := by
  obtain ⟨_, hunits, hdirs⟩ := deployed_eq_ok hdeployed
  obtain ⟨removed, host', hremove, hunits', hdirs'⟩ := removeService_eq hrun s hserver host
  refine ⟨removed, host', hremove, fun x hx => ?_⟩
  have hunit : unitFile x.name ∈ host.units := (hunits _).2 (.inr ⟨x, hx, rfl⟩)
  have hpath := mem_matchingServicePaths (s := s) (al.plain (validateName_eq_ok.1 hserver).2) hunit
  refine ⟨?_, ?_⟩
  · rw [hunits', hpath]
    exact and_iff_right hunit
  · rw [hdirs', ← hpath]
    constructor
    · rintro ⟨_, hall⟩ hmem
      exact hall _ hmem hunit (instanceOf_unitFile _).symm
    · intro hnot
      refine ⟨(hdirs _).2 (.inr ⟨x, hx, rfl⟩), fun u hu hu' heq => hnot ?_⟩
      -- the file found is that of a deployed instance, which has the same name
      rcases (hunits u).1 hu' with hu' | ⟨y, _, rfl⟩
      · cases hu'
      · rw [instanceOf_unitFile] at heq
        exact heq ▸ hu

/-- After any deployments `remove_service` takes away exactly the instances of the service for the server, and no
two instances share a name, if and only if the names of the servers and the tags keep them apart. -/
theorem removal_exact_iff (al : Alphabet) (run : HostCall → Bool) (deployed : List Instance) (names : List String)
    (host : Host) (s : Service) (serverName : String)
    (hdeployed : Effect.collect (Instance.deploy al) deployed Host.empty = (.ok names, host))
    (hrun : ∀ call, run call = true) (hserver : validateServerName al serverName = .ok ()) :
    ∃ removed host', removeService al run s.name serverName host = (.ok removed, host') ∧
      (Exact deployed s serverName host' ↔ Separate deployed s serverName) := by
  obtain ⟨hadm, _⟩ := deployed_eq_ok hdeployed
  obtain ⟨removed, host', hremove, hleft⟩ := exists_removed hdeployed hrun hserver
  refine ⟨removed, host', hremove, and_congr (names_distinct_iff deployed) ?_⟩
  constructor
  · intro hexact hg x hx hs hcaught
    have hsel := (selected_iff serverName (hadm x hx).grouped).2 (.inr ⟨hs ▸ hg, hcaught⟩)
    have hiff := (hleft x hx).1.symm.trans (hexact x hx).1
    exact hiff.2 (fun h => hcaught.length_ne (by rw [h.2])) ⟨hs, hsel⟩
  · intro hsep x hx
    have hiff : ¬ (x.service = s ∧ Selected serverName x) ↔ ¬ (x.service = s ∧ x.server = serverName) := by
      refine not_congr (and_congr_right fun hs => ?_)
      rw [selected_iff serverName (hadm x hx).grouped]
      exact or_iff_left fun h => hsep (hs ▸ h.1) x hx hs h.2
    exact ⟨(hleft x hx).1.trans hiff, (hleft x hx).2.trans hiff⟩

/-- The ASCII letters and digits alone. -/
def asciiAlphabet : Alphabet := ⟨Char.isAlphanum, fun _ _ => rfl⟩

/-- Market makers of two servers and the matching engine of one of them: the market makers of the other are removed.
-/
theorem removal_sample :
    ∃ names host removed host', Effect.collect (Instance.deploy asciiAlphabet)
        [⟨.mm, some "grp1", "a"⟩, ⟨.mm, some "grp1", "b"⟩, ⟨.me, none, "b"⟩] Host.empty = (.ok names, host) ∧
      removeService asciiAlphabet (fun _ => true) "mm" "a" host = (.ok removed, host') ∧
      Exact [⟨.mm, some "grp1", "a"⟩, ⟨.mm, some "grp1", "b"⟩, ⟨.me, none, "b"⟩] .mm "a" host' := by
  have hdeployed : Effect.collect (Instance.deploy asciiAlphabet)
      [⟨.mm, some "grp1", "a"⟩, ⟨.mm, some "grp1", "b"⟩, ⟨.me, none, "b"⟩] Host.empty =
        (.ok ["mm-grp1-a", "mm-grp1-b", "me-b"],
          ⟨["me-b.service", "mm-grp1-b.service", "mm-grp1-a.service"], ["me-b", "mm-grp1-b", "mm-grp1-a"]⟩) := by
    rfl
  obtain ⟨removed, host', hremove, hiff⟩ :=
    removal_exact_iff asciiAlphabet (fun _ => true) _ _ _ .mm "a" hdeployed (fun _ => rfl) rfl
  refine ⟨_, _, removed, host', hdeployed, hremove, hiff.2 ⟨(names_distinct_iff _).1 (by decide), ?_⟩⟩
  intro _ x hx _ hcaught
  exact hcaught.length_ne ((show ∀ x ∈ _, x.server.toList.length = "a".toList.length by decide) x hx)

/-- The market makers of the server `a-b` go with those of the server `b`. -/
theorem removal_takes_other_server :
    ∃ names host removed host', Effect.collect (Instance.deploy asciiAlphabet)
        [⟨.mm, some "grp1", "b"⟩, ⟨.mm, some "grp1", "a-b"⟩] Host.empty = (.ok names, host) ∧
      removeService asciiAlphabet (fun _ => true) "mm" "b" host = (.ok removed, host') ∧
      host'.units = [] ∧ host'.dirs = [] ∧
      ¬ Exact [⟨.mm, some "grp1", "b"⟩, ⟨.mm, some "grp1", "a-b"⟩] .mm "b" host' := by
  refine ⟨["mm-grp1-b", "mm-grp1-a-b"], ⟨["mm-grp1-a-b.service", "mm-grp1-b.service"], ["mm-grp1-a-b", "mm-grp1-b"]⟩,
    ["mm-grp1-a-b", "mm-grp1-b"], ⟨[], []⟩, rfl, rfl, rfl, rfl, fun hexact => ?_⟩
  have hleft := (hexact.2 ⟨.mm, some "grp1", "a-b"⟩ (by decide)).1.2 (by decide)
  cases hleft

end Elsa.Deployment
