import Mathlib.Logic.Function.Basic
import Elsa.Base.FreeNumbers
import Elsa.Base.Steps
import Elsa.Base.Totals

/-!
# Servers created at the same time

`RequestHandler::handle_create_server` reads the machines, then the services of one of them, chooses five ports that
are not used there, and inserts the server with its services.  Each request runs in a thread of its own, and each
call of `DatabaseClient` is one transaction; the other calls of a request do not touch these tables.  A call may
fail, and then the request ends.

Of the tables only the columns are kept that these transactions use, and a database keeps the constraints of
`init_postgresql.sql`.  The key of the services contains the server, so that it does not keep two servers from
having one port.
-/

namespace Elsa.Backend

open Base

/-! ### The tables -/

/-- `service_type_enum`. -/
inductive ServiceType
  | gateway
  | oms
  | me
  | mdp
  | oracle
  | deploymentServer
deriving DecidableEq, Repr

structure MachineRow where
  machineId : Int
  machineName : String
  ip : String
deriving DecidableEq, Repr

structure ServerRow where
  serverId : Int
  serverName : String
deriving DecidableEq, Repr

structure ServiceRow where
  serverId : Int
  machineId : Int
  serviceType : ServiceType
  port : Int
deriving DecidableEq, Repr

structure Database where
  machines : List MachineRow
  servers : List ServerRow
  services : List ServiceRow
  machine_key : (machines.map MachineRow.machineId).Nodup
  machine_name : (machines.map MachineRow.machineName).Nodup
  server_key : (servers.map ServerRow.serverId).Nodup
  server_name : (servers.map ServerRow.serverName).Nodup
  service_key : (services.map fun r => (r.serverId, r.machineId, r.port)).Nodup
  service_server : ∀ r ∈ services, r.serverId ∈ servers.map ServerRow.serverId
  service_machine : ∀ r ∈ services, r.machineId ∈ machines.map MachineRow.machineId
  service_port : ∀ r ∈ services, 1 ≤ r.port ∧ r.port ≤ 65535

/-- No two services on one machine have the same port. -/
def Database.Exclusive (db : Database) : Prop :=
  db.services.Pairwise fun r r' => r.machineId = r'.machineId → r.port ≠ r'.port

instance (db : Database) : Decidable db.Exclusive := inferInstanceAs (Decidable (List.Pairwise _ _))

/-- The ports in use on a machine. -/
def Database.portsOn (db : Database) (machineId : Int) : List Int :=
  (db.services.filter fun r => r.machineId = machineId).map ServiceRow.port

/-! ### Transactions -/

/-- The services of a machine, which is known by its name, joined with their servers. -/
def Database.servicesOn (db : Database) (machineName : String) : List ServiceRow :=
  db.services.filter fun r =>
    (db.servers.any fun sv => r.serverId = sv.serverId) &&
      db.machines.any fun m => r.machineId = m.machineId ∧ m.machineName = machineName

/-- `query_services`; a service of a type that `service_str_to_enum` does not know makes the call fail. -/
def Database.queryServices (db : Database) (machineName : String) : Option (List ServiceRow) :=
  if (db.servicesOn machineName).any fun r => r.serviceType = .deploymentServer then none
  else some (db.servicesOn machineName)

structure ServiceInsertRow where
  machineId : Int
  serviceType : ServiceType
  port : Int
deriving DecidableEq, Repr

/-- What the constraints demand of a new server and its services. -/
def Database.Insertable (db : Database) (serverId : Int) (serverName : String) (rows : List ServiceInsertRow) :
    Prop :=
  serverId ∉ db.servers.map ServerRow.serverId ∧ serverName ∉ db.servers.map ServerRow.serverName ∧
    (rows.map fun r => (r.machineId, r.port)).Nodup ∧
    ∀ r ∈ rows, r.machineId ∈ db.machines.map MachineRow.machineId ∧ 1 ≤ r.port ∧ r.port ≤ 65535

instance (db : Database) (serverId : Int) (serverName : String) (rows : List ServiceInsertRow) :
    Decidable (db.Insertable serverId serverName rows) := inferInstanceAs (Decidable (_ ∧ _ ∧ _ ∧ _))

/-- The rows that are inserted for a server. -/
def serviceRows (serverId : Int) (rows : List ServiceInsertRow) : List ServiceRow :=
  rows.map fun r => ⟨serverId, r.machineId, r.serviceType, r.port⟩

private theorem service_key_append {db : Database} {serverId : Int} {serverName : String}
    {rows : List ServiceInsertRow} (h : db.Insertable serverId serverName rows) :
    ((db.services ++ serviceRows serverId rows).map fun r => (r.serverId, r.machineId, r.port)).Nodup := by
  obtain ⟨hid, -, hrows, -⟩ := h
  rw [List.map_append, List.nodup_append]
  refine ⟨db.service_key, ?_, ?_⟩
  · have hmap : (serviceRows serverId rows).map (fun r => (r.serverId, r.machineId, r.port)) =
        (rows.map fun r => (r.machineId, r.port)).map fun k => (serverId, k) := by
      simp [serviceRows]
    rw [hmap]
    exact hrows.map fun k k' hk => (Prod.mk.inj hk).2
  · rintro k hk k' hk' rfl
    obtain ⟨r, hr, rfl⟩ := List.mem_map.1 hk
    obtain ⟨r', hr', heq⟩ := List.mem_map.1 hk'
    obtain ⟨r₀, -, rfl⟩ := List.mem_map.1 hr'
    have hserver : serverId = r.serverId := (Prod.mk.inj heq).1
    exact hid (hserver ▸ db.service_server r hr)

/-- `create_server_with_services`, with the id that the sequence of the table gives. -/
def Database.createServerWithServices (db : Database) (serverId : Int) (serverName : String)
    (rows : List ServiceInsertRow) : Option Database :=
  if h : db.Insertable serverId serverName rows then
    some
      { machines := db.machines
        servers := db.servers ++ [⟨serverId, serverName⟩]
        services := db.services ++ serviceRows serverId rows
        machine_key := db.machine_key
        machine_name := db.machine_name
        server_key := nodup_map_concat db.server_key h.1
        server_name := nodup_map_concat db.server_name h.2.1
        service_key := service_key_append h
        service_server := by
          intro r hr
          rw [List.map_append]
          rcases List.mem_append.1 hr with hr | hr
          · exact List.mem_append_left _ (db.service_server r hr)
          · obtain ⟨r₀, -, rfl⟩ := List.mem_map.1 hr
            exact List.mem_append_right _ List.mem_cons_self
        service_machine := by
          intro r hr
          rcases List.mem_append.1 hr with hr | hr
          · exact db.service_machine r hr
          · obtain ⟨r₀, hr₀, rfl⟩ := List.mem_map.1 hr
            exact (h.2.2.2 r₀ hr₀).1
        service_port := by
          intro r hr
          rcases List.mem_append.1 hr with hr | hr
          · exact db.service_port r hr
          · obtain ⟨r₀, hr₀, rfl⟩ := List.mem_map.1 hr
            exact (h.2.2.2 r₀ hr₀).2 }
  else none

/-- What the transaction leaves when it succeeds. -/
structure Database.Created (db : Database) (serverId : Int) (serverName : String) (rows : List ServiceInsertRow)
    (db' : Database) : Prop where
  insertable : db.Insertable serverId serverName rows
  machines : db'.machines = db.machines
  servers : db'.servers = db.servers ++ [⟨serverId, serverName⟩]
  services : db'.services = db.services ++ serviceRows serverId rows

theorem Database.createServerWithServices_eq_some {db db' : Database} {serverId : Int} {serverName : String}
    {rows : List ServiceInsertRow} (h : db.createServerWithServices serverId serverName rows = some db') :
    db.Created serverId serverName rows db' := by
  unfold createServerWithServices at h
  split at h
  · rename_i hins
    cases h
    exact ⟨hins, rfl, rfl, rfl⟩
  · cases h

/-! ### Ports -/

def kMinUnreservedPort : Int := 10001

/-- The variables that `take_next_available_port` captures. -/
structure PortState where
  usedPorts : List Int
  nextPortCandidate : Int

/-- The loop ends after at most as many rounds as there are used ports. -/
def takeNextAvailablePort (s : PortState) : Int × PortState :=
  let assignedPort := firstFree s.usedPorts s.usedPorts.length s.nextPortCandidate
  (assignedPort, ⟨assignedPort :: s.usedPorts, assignedPort + 1⟩)

/-- The rows of the five services. -/
def newServices (machineId : Int) (usedPorts : List Int) : List ServiceInsertRow :=
  let mdp := takeNextAvailablePort ⟨usedPorts, kMinUnreservedPort⟩
  let me := takeNextAvailablePort mdp.2
  let oms := takeNextAvailablePort me.2
  let gateway := takeNextAvailablePort oms.2
  let oracle := takeNextAvailablePort gateway.2
  [⟨machineId, .mdp, mdp.1⟩, ⟨machineId, .me, me.1⟩, ⟨machineId, .oms, oms.1⟩, ⟨machineId, .gateway, gateway.1⟩,
    ⟨machineId, .oracle, oracle.1⟩]

private theorem takeFree_eq_cons (n : Nat) (s : PortState) :
    takeFree (n + 1) s.usedPorts s.nextPortCandidate = (takeNextAvailablePort s).1 ::
      takeFree n (takeNextAvailablePort s).2.usedPorts (takeNextAvailablePort s).2.nextPortCandidate := rfl

theorem newServices_ports (machineId : Int) (usedPorts : List Int) :
    (newServices machineId usedPorts).map ServiceInsertRow.port = takeFree 5 usedPorts kMinUnreservedPort := by
  have h := takeFree_eq_cons 4 ⟨usedPorts, kMinUnreservedPort⟩
  simp only [takeFree_eq_cons] at h
  exact h.symm

theorem newServices_machine {machineId : Int} {usedPorts : List Int} {r : ServiceInsertRow}
    (h : r ∈ newServices machineId usedPorts) : r.machineId = machineId := by
  simp only [newServices, List.mem_cons, List.not_mem_nil, or_false] at h
  rcases h with rfl | rfl | rfl | rfl | rfl <;> rfl

/-! ### Requests -/

/-- How far a request is: the transaction it does next. -/
inductive Request
  | idle
  | queryMachines (serverName : String)
  | queryServices (serverName : String) (machine : MachineRow)
  | create (serverName : String) (machineId : Int) (usedPorts : List Int)
  | created (serverId : Int)
  | failed
deriving DecidableEq

structure State (ι : Type) where
  db : Database
  requests : ι → Request

/-- A request arrives in a thread, or the thread does its next transaction.  The machines come in any order, and a
new server gets any new id. -/
inductive Event (ι : Type)
  | arrive (t : ι) (serverName : String)
  | queryMachines (t : ι) (machines : List MachineRow)
  | queryServices (t : ι)
  | create (t : ι) (serverId : Int)
  | fail (t : ι)

namespace State

variable {ι : Type} [DecidableEq ι]

def start (db : Database) : State ι := ⟨db, fun _ => .idle⟩

def set (s : State ι) (t : ι) (r : Request) : State ι := { s with requests := Function.update s.requests t r }

/-- `handle_create_server`, one transaction at a time. -/
def step (s : State ι) : Event ι → Option (State ι)
  | .arrive t serverName =>
    match s.requests t with
    | .idle => some (s.set t (.queryMachines serverName))
    | _ => none
  | .queryMachines t machines =>
    match s.requests t with
    | .queryMachines serverName =>
      if machines.Perm s.db.machines then
        match machines with
        | [] => none
        | machine :: _ => some (s.set t (.queryServices serverName machine))
      else none
    | _ => none
  | .queryServices t =>
    match s.requests t with
    | .queryServices serverName machine =>
      (s.db.queryServices machine.machineName).map fun services =>
        s.set t (.create serverName machine.machineId (services.map ServiceRow.port))
    | _ => none
  | .create t serverId =>
    match s.requests t with
    | .create serverName machineId usedPorts =>
      (s.db.createServerWithServices serverId serverName (newServices machineId usedPorts)).map fun db =>
        { s.set t (.created serverId) with db }
    | _ => none
  | .fail t => some (s.set t .failed)

/-- What the request knows about the ports of its machine. -/
def snapshot? (s : State ι) (t : ι) : Option (Int × List Int) :=
  match s.requests t with
  | .create _ machineId usedPorts => some (machineId, usedPorts)
  | _ => none

/-- The ports that a request has read are still all the ports in use on its machine. -/
def UpToDate (s : State ι) (t : ι) : Prop := ∀ x ∈ s.snapshot? t, ∀ p ∈ s.db.portsOn x.1, p ∈ x.2

instance (s : State ι) (t : ι) : Decidable (s.UpToDate t) := inferInstanceAs (Decidable (∀ x ∈ _, ∀ p ∈ _, _))

/-- A server is created only if no other one was created on its machine since its request read the ports. -/
def Current (s : State ι) : Event ι → Prop
  | .create t _ => s.UpToDate t
  | _ => True

instance (s : State ι) (e : Event ι) : Decidable (s.Current e) := by
  cases e
  case create t _ => exact inferInstanceAs (Decidable (s.UpToDate t))
  all_goals exact inferInstanceAs (Decidable True)

end State

end Elsa.Backend
