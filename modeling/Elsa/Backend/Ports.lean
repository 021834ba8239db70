import Elsa.Backend.CreateServer

/-!
# When ports are exclusive

A request chooses the first free ports above the ports it has read.  If these are still all the ports of the machine
when the server is created, the new ports are new; and if another server was created there in between, with the same
knowledge or a later one, both chose the same ports.  So the creation keeps the ports of a machine apart exactly
when the request is up to date (`exclusive_iff_upToDate`).
-/

namespace Elsa.Backend

open Base

/-! ### What the transactions read and write -/

namespace Database

variable {db db' : Database}

private theorem mem_portsOn {p machineId : Int} :
    p ∈ db.portsOn machineId ↔ ∃ r ∈ db.services, r.machineId = machineId ∧ r.port = p := by
  unfold portsOn
  rw [List.mem_map]
  constructor
  · rintro ⟨r, hr, rfl⟩
    obtain ⟨hr, hm⟩ := List.mem_filter.1 hr
    exact ⟨r, hr, of_decide_eq_true hm, rfl⟩
  · rintro ⟨r, hr, hm, rfl⟩
    exact ⟨r, List.mem_filter.2 ⟨hr, decide_eq_true hm⟩, rfl⟩

/-- A machine is known by its name. -/
private theorem machine_eq {m m' : MachineRow} (hm : m ∈ db.machines) (hm' : m' ∈ db.machines)
    (h : m.machineName = m'.machineName) : m = m' :=
  List.inj_on_of_nodup_map db.machine_name hm hm' h

/-- The services of a machine give its ports. -/
private theorem mem_queryServices {machine : MachineRow} (hm : machine ∈ db.machines) {rows : List ServiceRow}
    (h : db.queryServices machine.machineName = some rows) (p : Int) :
    p ∈ rows.map ServiceRow.port ↔ p ∈ db.portsOn machine.machineId := by
  unfold queryServices at h
  split at h
  · cases h
  · cases h
    rw [mem_portsOn, List.mem_map]
    constructor
    · rintro ⟨r, hr, rfl⟩
      obtain ⟨hr, hjoin⟩ := List.mem_filter.1 hr
      obtain ⟨m, hmem, hjoin⟩ := List.any_eq_true.1 (Bool.and_eq_true_iff.1 hjoin).2
      obtain ⟨hid, hname⟩ := of_decide_eq_true hjoin
      exact ⟨r, hr, hid.trans (congrArg MachineRow.machineId (machine_eq hmem hm hname)), rfl⟩
    · rintro ⟨r, hr, hid, rfl⟩
      refine ⟨r, List.mem_filter.2 ⟨hr, Bool.and_eq_true_iff.2 ⟨?_, ?_⟩⟩, rfl⟩
      · obtain ⟨sv, hsv, heq⟩ := List.mem_map.1 (db.service_server r hr)
        exact List.any_eq_true.2 ⟨sv, hsv, decide_eq_true heq.symm⟩
      · exact List.any_eq_true.2 ⟨machine, hm, decide_eq_true ⟨hid, rfl⟩⟩

/-- The ports of a machine after a creation. -/
private theorem mem_portsOn_create {serverId machineId p : Int} {used : List Int} (m : Int)
    (h : db'.services = db.services ++ serviceRows serverId (newServices machineId used)) :
    p ∈ db'.portsOn m ↔ p ∈ db.portsOn m ∨ m = machineId ∧ p ∈ takeFree 5 used kMinUnreservedPort := by
  rw [mem_portsOn, mem_portsOn, h, ← newServices_ports machineId used]
  constructor
  · rintro ⟨r, hr, hm, rfl⟩
    rcases List.mem_append.1 hr with hr | hr
    · exact Or.inl ⟨r, hr, hm, rfl⟩
    · obtain ⟨r₀, hr₀, rfl⟩ := List.mem_map.1 hr
      exact Or.inr ⟨hm.symm.trans (newServices_machine hr₀), List.mem_map_of_mem hr₀⟩
  · rintro (⟨r, hr, hm, rfl⟩ | ⟨rfl, hp⟩)
    · exact ⟨r, List.mem_append_left _ hr, hm, rfl⟩
    · obtain ⟨r₀, hr₀, rfl⟩ := List.mem_map.1 hp
      exact ⟨_, List.mem_append_right _ (List.mem_map_of_mem hr₀), newServices_machine hr₀, rfl⟩

/-- A creation keeps the ports apart exactly when the new ones are not in use. -/
private theorem exclusive_create_iff {serverId machineId : Int} {used : List Int} (hdb : db.Exclusive)
    (h : db'.services = db.services ++ serviceRows serverId (newServices machineId used)) :
    db'.Exclusive ↔ ∀ p ∈ takeFree 5 used kMinUnreservedPort, p ∉ db.portsOn machineId := by
  have hnew : (serviceRows serverId (newServices machineId used)).Pairwise fun r r' =>
      r.machineId = r'.machineId → r.port ≠ r'.port := by
    have hports : ((serviceRows serverId (newServices machineId used)).map ServiceRow.port).Nodup := by
      have hmap : (serviceRows serverId (newServices machineId used)).map ServiceRow.port =
          (newServices machineId used).map ServiceInsertRow.port := by
        simp [serviceRows]
      rw [hmap, newServices_ports]
      exact nodup_takeFree
    exact (List.pairwise_map.1 hports).imp_of_mem fun _ _ hne _ => hne
  unfold Exclusive
  rw [h, List.pairwise_append, ← newServices_ports machineId used]
  constructor
  · rintro ⟨-, -, hcross⟩ p hp hused
    obtain ⟨r₀, hr₀, rfl⟩ := List.mem_map.1 hp
    obtain ⟨r, hr, hm, hport⟩ := mem_portsOn.1 hused
    exact hcross r hr _ (List.mem_map_of_mem hr₀) (hm.trans (newServices_machine hr₀).symm) hport
  · intro hfree
    refine ⟨hdb, hnew, fun r hr r' hr' hm heq => ?_⟩
    obtain ⟨r₀, hr₀, rfl⟩ := List.mem_map.1 hr'
    exact hfree r₀.port (List.mem_map_of_mem hr₀)
      (mem_portsOn.2 ⟨r, hr, hm.trans (newServices_machine hr₀), heq⟩)

end Database

/-! ### Runs -/

namespace State

variable {ι : Type} {s s' : State ι}

/-- What a request knows.  Once another server has been created on its machine, one of the ports it will choose is
in use. -/
def Knows (db : Database) : Request → Prop
  | .queryServices _ machine => machine ∈ db.machines
  | .create _ machineId used => (∀ p ∈ used, p ∈ db.portsOn machineId) ∧
      ((∀ p ∈ db.portsOn machineId, p ∈ used) ∨
        ∃ p ∈ takeFree 5 used kMinUnreservedPort, p ∈ db.portsOn machineId)
  | _ => True

structure Sound (s : State ι) : Prop where
  exclusive : s.db.Exclusive
  knows : ∀ t, Knows s.db (s.requests t)

private theorem upToDate_iff {t : ι} {serverName : String} {machineId : Int} {used : List Int}
    (h : s.requests t = .create serverName machineId used) :
    s.UpToDate t ↔ ∀ p ∈ s.db.portsOn machineId, p ∈ used := by
  unfold UpToDate snapshot?
  rw [h]
  constructor
  · intro hall
    exact hall _ rfl
  · rintro hall x hx
    cases hx
    exact hall

/-- The ports of a request that is up to date are free; if it is not, one of them is in use. -/
private theorem Sound.free_iff_upToDate (h : s.Sound) {t : ι} {serverName : String} {machineId : Int}
    {used : List Int} (ht : s.requests t = .create serverName machineId used) :
    (∀ p ∈ takeFree 5 used kMinUnreservedPort, p ∉ s.db.portsOn machineId) ↔ s.UpToDate t := by
  have hknows := h.knows t
  rw [ht] at hknows
  rw [upToDate_iff ht]
  constructor
  · intro hfree
    refine hknows.2.resolve_right ?_
    rintro ⟨p, hp, hused⟩
    exact hfree p hp hused
  · intro hall p hp hused
    exact not_mem_of_mem_takeFree hp (hall p hused)

/-- What the others know after a creation by an up-to-date request. -/
theorem Knows.create {db db' : Database} {r : Request} (h : Knows db r) {serverId machineId : Int} {used : List Int}
    (hmachines : db'.machines = db.machines)
    (hservices : db'.services = db.services ++ serviceRows serverId (newServices machineId used))
    (hused : ∀ p, p ∈ used ↔ p ∈ db.portsOn machineId) : Knows db' r := by
  cases r with
  | queryServices serverName machine =>
    show machine ∈ db'.machines
    rw [hmachines]
    exact h
  | create serverName m seen =>
    obtain ⟨hsub, hrest⟩ := h
    have hmono : ∀ p ∈ db.portsOn m, p ∈ db'.portsOn m := fun p hp =>
      (Database.mem_portsOn_create m hservices).2 (Or.inl hp)
    refine ⟨fun p hp => hmono p (hsub p hp), ?_⟩
    rcases hrest with hall | ⟨p, hp, hin⟩
    · by_cases hm : m = machineId
      · -- both requests have read the same ports
        subst hm
        have hsame : takeFree 5 seen kMinUnreservedPort = takeFree 5 used kMinUnreservedPort :=
          takeFree_congr fun p => ⟨fun hp => (hused p).2 (hsub p hp), fun hp => hall p ((hused p).1 hp)⟩
        obtain ⟨p, hp⟩ := List.exists_mem_of_length_pos
          (show 0 < (takeFree 5 seen kMinUnreservedPort).length by rw [length_takeFree]; decide)
        exact Or.inr ⟨p, hp, (Database.mem_portsOn_create m hservices).2 (Or.inr ⟨rfl, hsame ▸ hp⟩)⟩
      · refine Or.inl fun p hp => hall p ?_
        exact ((Database.mem_portsOn_create m hservices).1 hp).resolve_right fun hnew => hm hnew.1
    · exact Or.inr ⟨p, hp, hmono p hin⟩
  | _ => trivial

variable [DecidableEq ι]

theorem Sound.set (h : s.Sound) {t : ι} {r : Request} (hr : Knows s.db r) : (s.set t r).Sound := by
  refine ⟨h.exclusive, fun t' => ?_⟩
  show Knows s.db (Function.update s.requests t r t')
  by_cases ht : t' = t
  · rw [ht, Function.update_self]
    exact hr
  · rw [Function.update_of_ne ht]
    exact h.knows t'

private theorem create_of_step {t : ι} {serverId : Int} (h : s.step (.create t serverId) = some s') :
    ∃ serverName machineId used, s.requests t = .create serverName machineId used ∧
      s'.db.machines = s.db.machines ∧
      s'.db.services = s.db.services ++ serviceRows serverId (newServices machineId used) ∧
      s'.requests = Function.update s.requests t (.created serverId) := by
  simp only [step] at h
  split at h
  · next serverName machineId used ht =>
    obtain ⟨db, hdb, rfl⟩ := Option.map_eq_some_iff.1 h
    have hc := Database.createServerWithServices_eq_some hdb
    exact ⟨serverName, machineId, used, ht, hc.machines, hc.services, rfl⟩
  · cases h

theorem Sound.create (h : s.Sound) {t : ι} {serverId : Int} (hcur : s.UpToDate t)
    (hs : s.step (.create t serverId) = some s') : s'.Sound := by
  obtain ⟨serverName, machineId, used, ht, hmachines, hservices, hrequests⟩ := create_of_step hs
  have hknows := h.knows t
  rw [ht] at hknows
  have hused : ∀ p, p ∈ used ↔ p ∈ s.db.portsOn machineId := fun p => ⟨hknows.1 p, (upToDate_iff ht).1 hcur p⟩
  refine ⟨(Database.exclusive_create_iff h.exclusive hservices).2 ((h.free_iff_upToDate ht).2 hcur), fun t' => ?_⟩
  rw [hrequests]
  by_cases ht' : t' = t
  · rw [ht', Function.update_self]
    trivial
  · rw [Function.update_of_ne ht']
    exact (h.knows t').create hmachines hservices hused

theorem Sound.step (h : s.Sound) {e : Event ι} (hcur : s.Current e) (hs : s.step e = some s') : s'.Sound := by
  cases e with
  | arrive t serverName =>
    simp only [State.step] at hs
    split at hs
    · cases hs
      exact h.set trivial
    · cases hs
  | queryMachines t machines =>
    simp only [State.step] at hs
    split at hs
    · split at hs
      · next hperm =>
        split at hs
        · cases hs
        · cases hs
          exact h.set (hperm.subset List.mem_cons_self)
      · cases hs
    · cases hs
  | queryServices t =>
    simp only [State.step] at hs
    split at hs
    · next serverName machine ht =>
      have hknows := h.knows t
      rw [ht] at hknows
      obtain ⟨rows, hrows, rfl⟩ := Option.map_eq_some_iff.1 hs
      have hports := Database.mem_queryServices hknows hrows
      exact h.set ⟨fun p hp => (hports p).1 hp, Or.inl fun p hp => (hports p).2 hp⟩
    · cases hs
  | create t serverId => exact h.create hcur hs
  | fail t =>
    cases hs
    exact h.set trivial

/-- In a run in which every creation is up to date the ports of a machine stay apart, and a creation keeps them
apart exactly when it is up to date. -/
theorem exclusive_iff_upToDate {db : Database} (hdb : db.Exclusive) (h : Reach step Current (start db) s) :
    s.db.Exclusive ∧
      ∀ t serverId s', s.step (.create t serverId) = some s' → (s'.db.Exclusive ↔ s.UpToDate t) := by
  have hsound : s.Sound := h.invariant (I := Sound) ⟨hdb, fun _ => trivial⟩ fun _ _ _ ih hcur hs => ih.step hcur hs
  refine ⟨hsound.exclusive, fun t serverId s' hs => ?_⟩
  obtain ⟨serverName, machineId, used, ht, -, hservices, -⟩ := create_of_step hs
  rw [Database.exclusive_create_iff hsound.exclusive hservices, hsound.free_iff_upToDate ht]

/-- One machine and no server yet. -/
def emptyDatabase : Database where
  machines := [⟨1, "localhost", "127.0.0.1"⟩]
  servers := []
  services := []
  machine_key := by decide
  machine_name := by decide
  server_key := by decide
  server_name := by decide
  service_key := by decide
  service_server := by decide
  service_machine := by decide
  service_port := by decide

/-- The transactions of a request before the creation. -/
def readPorts (t : Bool) (serverName : String) : List (Event Bool) :=
  [.arrive t serverName, .queryMachines t [⟨1, "localhost", "127.0.0.1"⟩], .queryServices t]

theorem exclusive_iff_upToDate_sample : ∃ s : State Bool, Reach step Current (start emptyDatabase) s ∧
    s.db.portsOn 1 = [10001, 10002, 10003, 10004, 10005, 10006, 10007, 10008, 10009, 10010] ∧ s.db.Exclusive := by
  have hrun : (execIf step Current (start emptyDatabase)
      (readPorts false "alpha" ++ [.create false 1] ++ readPorts true "beta" ++ [.create true 2])).any
      (fun s => decide (s.db.portsOn 1 = [10001, 10002, 10003, 10004, 10005, 10006, 10007, 10008, 10009, 10010])) =
        true := by
    decide +kernel
  obtain ⟨s, hreach, h⟩ := Reach.exists_of_execIf hrun
  exact ⟨s, hreach, of_decide_eq_true h, (exclusive_iff_upToDate (by decide) hreach).1⟩

/-- Two requests that read the ports before either creates its server get the same ports. -/
theorem ports_shared : ∃ s : State Bool, Reach step (fun _ _ => True) (start emptyDatabase) s ∧
    s.db.portsOn 1 = [10001, 10002, 10003, 10004, 10005, 10001, 10002, 10003, 10004, 10005] ∧
    emptyDatabase.Exclusive ∧ ¬ s.db.Exclusive := by
  have hrun : (exec step (start emptyDatabase)
      (readPorts false "alpha" ++ readPorts true "beta" ++ [.create false 1, .create true 2])).any
      (fun s => decide (s.db.portsOn 1 = [10001, 10002, 10003, 10004, 10005, 10001, 10002, 10003, 10004, 10005] ∧
        ¬ s.db.Exclusive)) = true := by
    decide +kernel
  obtain ⟨s, hreach, h⟩ := Reach.exists_of_exec hrun
  obtain ⟨hports, hex⟩ := of_decide_eq_true h
  exact ⟨s, hreach, hports, by decide, hex⟩

end State

end Elsa.Backend
