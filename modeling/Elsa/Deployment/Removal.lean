import Elsa.Deployment.Instances
import Elsa.Deployment.Whitelist

/-!
# Removal on a host

`POST /remove_server` of the deployment server, whatever state the host is in and however the call ends: a command
or a deletion that fails ends it halfway, and an instance whose unit file is not there is passed over.  So a
directory whose deletion fails is left without its unit file, and later calls do not come back to it.

Where the names of the servers hold no `-`, as those that the backend admits, a call for one server leaves the
instances of all others alone (`postRemoveServer_spares`); one that succeeds has removed the unit files of its
service and server (`postRemoveServer_clears`); as long as deletions of directories do not fail, no directory is
left without its unit file (`postRemoveServer_staysTidy`); and as long as nothing fails each call succeeds
(`postRemoveServer_of_run`).
-/

namespace Elsa.Deployment

open Base Effect Backend

/-- `do_POST` for the path `/remove_server`. -/
def postRemoveServer (al : Alphabet) (run : HostCall → Bool) (serviceType serverName : String) :
    Action (List String) :=
  if pyStrip serverName = "" then Effect.fail (.deployment "server_name is required")
  else if pyStrip serviceType = "" then Effect.fail (.deployment "service_type is required")
  else removeService al run (pyStrip serviceType) (pyStrip serverName)

/-- The status of the response to an error. -/
def HostError.status : HostError → Nat
  | .deployment _ => 400
  | .os _ => 500

/-- Unit files and install directories only go, and only those that may. -/
structure Host.Sheds (may : String → Prop) (host host' : Host) : Prop where
  units : ∀ u ∈ host'.units, u ∈ host.units
  kept : ∀ u ∈ host.units, ¬ may u → u ∈ host'.units
  dirs : ∀ d ∈ host'.dirs, d ∈ host.dirs
  keptDirs : ∀ d ∈ host.dirs, ¬ may (unitFile d) → d ∈ host'.dirs

namespace Host.Sheds

variable {may may' : String → Prop} {host host' host'' : Host}

theorem refl (host : Host) : host.Sheds may host := ⟨fun _ h => h, fun _ h _ => h, fun _ h => h, fun _ h _ => h⟩

theorem trans (h : host.Sheds may host') (h' : host'.Sheds may host'') : host.Sheds may host'' where
  units u hu := h.units u (h'.units u hu)
  kept u hu hmay := h'.kept u (h.kept u hu hmay) hmay
  dirs d hd := h.dirs d (h'.dirs d hd)
  keptDirs d hd hmay := h'.keptDirs d (h.keptDirs d hd hmay) hmay

theorem mono (h : host.Sheds may host') (himp : ∀ u, may u → may' u) : host.Sheds may' host' where
  units := h.units
  kept u hu hmay := h.kept u hu fun hu' => hmay (himp u hu')
  dirs := h.dirs
  keptDirs d hd hmay := h.keptDirs d hd fun hd' => hmay (himp _ hd')

end Host.Sheds

/-- Each install directory has its unit file. -/
def Host.Tidy (host : Host) : Prop := ∀ n ∈ host.dirs, unitFile n ∈ host.units

/-- If each install directory had its unit file, it still has. -/
def Host.StaysTidy (host host' : Host) : Prop := host.Tidy → host'.Tidy

theorem Host.StaysTidy.refl (host : Host) : host.StaysTidy host := id

theorem Host.StaysTidy.trans (host host' host'' : Host) (h : host.StaysTidy host') (h' : host'.StaysTidy host'') :
    host.StaysTidy host'' :=
  fun htidy => h' (h htidy)

/-! ### One unit file -/

/-- The host after the file of an instance has gone. -/
private def Host.unlinked (host : Host) (n : String) : Host :=
  { host with units := host.units.filter (· ≠ unitFile n) }

/-- The host after the file and the directory of an instance have gone. -/
private def Host.without (host : Host) (n : String) : Host :=
  ⟨host.units.filter (· ≠ unitFile n), host.dirs.filter (· ≠ n)⟩

private theorem Host.sheds_unlinked (host : Host) (n : String) : host.Sheds (· = unitFile n) (host.unlinked n) where
  units _ hu := (List.mem_filter.1 hu).1
  kept _ hu hne := List.mem_filter.2 ⟨hu, decide_eq_true hne⟩
  dirs _ hd := hd
  keptDirs _ hd _ := hd

private theorem Host.sheds_without (host : Host) (n : String) : host.Sheds (· = unitFile n) (host.without n) where
  units _ hu := (List.mem_filter.1 hu).1
  kept _ hu hne := List.mem_filter.2 ⟨hu, decide_eq_true hne⟩
  dirs _ hd := (List.mem_filter.1 hd).1
  keptDirs _ hd hne := List.mem_filter.2 ⟨hd, decide_eq_true fun heq => hne (congrArg unitFile heq)⟩

private theorem Host.without_tidy (host : Host) (n : String) : host.StaysTidy (host.without n) := by
  intro htidy m hm
  obtain ⟨hmem, hne⟩ := List.mem_filter.1 hm
  exact List.mem_filter.2 ⟨htidy m hmem, decide_eq_true fun heq => of_decide_eq_true hne (unitFile_inj.1 heq)⟩

private theorem runCmd_of_failed {run : HostCall → Bool} {cmd : List String} (h : ¬ run (.cmd cmd) = true)
    (host : Host) : runCmd run cmd host = (.error (.deployment ("Command failed: " ++ " ".intercalate cmd)),
      host) := by
  rw [runCmd, if_neg h]
  rfl

private theorem runCmd_of_ok {run : HostCall → Bool} {cmd : List String} (h : run (.cmd cmd) = true) (host : Host) :
    runCmd run cmd host = (.ok (), host) := by
  rw [runCmd, if_pos h]
  rfl

/-- The directory goes, or its deletion fails. -/
private theorem rmtree_unlinked (run : HostCall → Bool) (host : Host) (n : String) :
    rmtree run n (host.unlinked n) = (.ok (), host.without n) ∨
      run (.rmtree n) = false ∧ ∃ e, rmtree run n (host.unlinked n) = (.error e, host.unlinked n) := by
  unfold rmtree
  split
  · rename_i hnot
    have hall : host.dirs.filter (· ≠ n) = host.dirs :=
      List.filter_eq_self.2 fun d hd => decide_eq_true (ne_of_mem_of_not_mem hd hnot)
    rw [Host.unlinked, Host.without, hall]
    exact .inl rfl
  · split
    · exact .inl rfl
    · rename_i hfailed
      exact .inr ⟨Bool.not_eq_true _ ▸ hfailed, _, rfl⟩

/-- The file is not there, or the host is as it was, or the file has gone and its directory could not be deleted, or
both have gone. -/
private theorem removeUnit_cases (run : HostCall → Bool) (n : String) (host : Host) :
    (unitFile n ∉ host.units ∧ removeUnit run (unitFile n) host = (.ok none, host)) ∨
      (∃ e, removeUnit run (unitFile n) host = (.error e, host)) ∨
      (run (.rmtree n) = false ∧ ∃ e, removeUnit run (unitFile n) host = (.error e, host.unlinked n)) ∨
      removeUnit run (unitFile n) host = (.ok (some n), host.without n) := by
  unfold removeUnit
  rw [instanceOf_unitFile]
  by_cases hmem : unitFile n ∈ host.units
  swap
  · exact .inl ⟨hmem, if_neg hmem⟩
  rw [if_pos hmem]
  refine .inr ?_
  by_cases hstop : run (.cmd ["systemctl", "stop", unitFile n]) = true
  swap
  · exact .inl ⟨_, bind_of_error (runCmd_of_failed hstop host) _⟩
  rw [bind_of_ok (runCmd_of_ok hstop host)]
  by_cases hdisable : run (.cmd ["systemctl", "disable", unitFile n]) = true
  swap
  · exact .inl ⟨_, bind_of_error (runCmd_of_failed hdisable host) _⟩
  rw [bind_of_ok (runCmd_of_ok hdisable host)]
  by_cases hunlink : run (.unlink (unitFile n)) = true
  swap
  · have hfailed : unlink run (unitFile n) host = (.error (.os (.unlink (unitFile n))), host) := if_neg hunlink
    exact .inl ⟨_, bind_of_error hfailed _⟩
  have hunlinked : unlink run (unitFile n) host = (.ok (), host.unlinked n) := if_pos hunlink
  rw [bind_of_ok hunlinked]
  rcases rmtree_unlinked run host n with hdone | ⟨hfailed, e, herror⟩
  · exact .inr (.inr (bind_of_ok hdone _))
  · exact .inr (.inl ⟨hfailed, e, bind_of_error herror _⟩)

private theorem removeUnit_sheds (run : HostCall → Bool) (n : String) :
    Moves (Host.Sheds (· = unitFile n)) (removeUnit run (unitFile n)) := by
  intro host
  rcases removeUnit_cases run n host with ⟨-, h⟩ | ⟨e, h⟩ | ⟨-, e, h⟩ | h
  · rw [h]
    exact .refl host
  · rw [h]
    exact .refl host
  · rw [h]
    exact host.sheds_unlinked n
  · rw [h]
    exact host.sheds_without n

private theorem removeUnit_staysTidy {run : HostCall → Bool} (hclears : ∀ n, run (.rmtree n) = true) (n : String) :
    Moves Host.StaysTidy (removeUnit run (unitFile n)) := by
  intro host
  rcases removeUnit_cases run n host with ⟨-, h⟩ | ⟨e, h⟩ | ⟨hfailed, -⟩ | h
  · rw [h]
    exact .refl host
  · rw [h]
    exact .refl host
  · cases (hclears n).symm.trans hfailed
  · rw [h]
    exact host.without_tidy n

private theorem notMem_of_removeUnit {run : HostCall → Bool} {n : String} {host host' : Host} {r : Option String}
    (h : removeUnit run (unitFile n) host = (.ok r, host')) : unitFile n ∉ host'.units := by
  rcases removeUnit_cases run n host with ⟨hnot, heq⟩ | ⟨e, heq⟩ | ⟨-, e, heq⟩ | heq
  · cases heq.symm.trans h
    exact hnot
  · cases heq.symm.trans h
  · cases heq.symm.trans h
  · cases heq.symm.trans h
    exact fun hmem => of_decide_eq_true (List.mem_filter.1 hmem).2 rfl

/-! ### The loop -/

variable {al : Alphabet} {run : HostCall → Bool} {s : Service} {serverName : String} {host host' : Host}

/-- Only unit files are found. -/
private theorem unitFile_of_mem (hplain : '*' ∉ serverName.toList ∧ '?' ∉ serverName.toList) {u : String}
    (h : u ∈ matchingServicePaths s serverName host) : ∃ n, u = unitFile n := by
  unfold matchingServicePaths at h
  by_cases hg : s.grouped = true
  · simp only [if_pos hg, List.mem_eraseDups, List.mem_append, List.mem_filter] at h
    rcases h with ⟨-, h⟩ | h
    · rw [parse_pattern s hplain, Glob.matches_around] at h
      obtain ⟨m, hm⟩ := h
      refine ⟨s.name ++ "-" ++ String.ofList m ++ "-" ++ serverName, ?_⟩
      rw [← String.toList_inj, hm]
      simp [unitFile]
    · split at h
      · exact ⟨_, List.mem_singleton.1 h⟩
      · cases h
  · simp only [if_neg hg] at h
    exact ⟨_, List.mem_singleton.1 h⟩

private theorem collect_sheds {paths : List String} (hpaths : ∀ u ∈ paths, ∃ n, u = unitFile n) :
    Moves (Host.Sheds (· ∈ paths)) (collect (removeUnit run) paths) := by
  refine Moves.collect Host.Sheds.refl (fun _ _ _ => Host.Sheds.trans) fun u hu => ?_
  obtain ⟨n, rfl⟩ := hpaths u hu
  exact fun host => (removeUnit_sheds run n host).mono fun v hv => hv ▸ hu

private theorem collect_staysTidy (hclears : ∀ n, run (.rmtree n) = true) {paths : List String}
    (hpaths : ∀ u ∈ paths, ∃ n, u = unitFile n) : Moves Host.StaysTidy (collect (removeUnit run) paths) := by
  refine Moves.collect Host.StaysTidy.refl Host.StaysTidy.trans fun u hu => ?_
  obtain ⟨n, rfl⟩ := hpaths u hu
  exact removeUnit_staysTidy hclears n

private theorem notMem_of_collect {paths : List String} {removed : List (Option String)}
    (hpaths : ∀ u ∈ paths, ∃ n, u = unitFile n)
    (h : collect (removeUnit run) paths host = (.ok removed, host')) : ∀ u ∈ paths, u ∉ host'.units := by
  induction paths generalizing host removed with
  | nil => exact fun _ hu => absurd hu List.not_mem_nil
  | cons unit paths ih =>
    obtain ⟨⟨n, rfl⟩, hrest⟩ := List.forall_mem_cons.1 hpaths
    obtain ⟨r, host₁, hr, h⟩ := bind_eq_ok.1 h
    obtain ⟨rs, host₂, hrs, h⟩ := bind_eq_ok.1 h
    cases h
    have hsheds : host₁.Sheds (· ∈ paths) host' := (collect_sheds hrest).of_run hrs
    exact List.forall_mem_cons.2 ⟨fun hmem => notMem_of_removeUnit hr (hsheds.units _ hmem), ih hrest hrs⟩

/-! ### A service of a server -/

/-- A name without `-` is the end of no label but that of its own server. -/
private theorem server_of_selected (hserver : '-' ∉ serverName.toList) {x : Instance} (hx : '-' ∉ x.server.toList)
    (h : Selected serverName x) : x.server = serverName := by
  have hdash : ∀ {t u v : String}, t = u ++ "-" ++ v → '-' ∈ t.toList := by
    rintro t u v rfl
    simp
  unfold Selected Instance.label at h
  cases htag : x.groupTag with
  | none =>
    rw [htag] at h
    rcases h with h | ⟨-, p, h⟩
    · exact h
    · exact absurd (hdash h) hx
  | some tag =>
    rw [htag] at h
    rcases h with h | ⟨-, p, h⟩
    · exact absurd (hdash h.symm) hserver
    · rcases dash_eq_dash.1 h with ⟨-, h⟩ | ⟨w, -, h⟩ | ⟨w, -, h⟩
      · exact h
      · exact absurd (hdash h) hx
      · exact absurd (hdash h) hserver

/-- A unit file that belongs to no server but the given one, among those without `-`. -/
def OnlyOf (serverName : String) (u : String) : Prop :=
  ∀ x : Instance, '-' ∉ x.server.toList → u = unitFile x.name → x.server = serverName

/-- The files that are found for a server, wherever they come from, are its own. -/
private theorem onlyOf_of_mem (hserver : '-' ∉ serverName.toList)
    (hplain : '*' ∉ serverName.toList ∧ '?' ∉ serverName.toList) {u : String}
    (h : u ∈ matchingServicePaths s serverName host) : OnlyOf serverName u := by
  rintro x hx rfl
  by_cases hu : unitFile x.name ∈ host.units
  · exact server_of_selected hserver hx ((mem_matchingServicePaths hplain hu).1 h).2
  -- the one file that is looked for without being there bears the name of the server
  unfold matchingServicePaths at h
  by_cases hg : s.grouped = true
  · simp only [if_pos hg, List.mem_eraseDups, List.mem_append, List.mem_filter] at h
    rcases h with ⟨hmem, -⟩ | h
    · exact absurd hmem hu
    · split at h
      · rename_i hlegacy
        exact absurd (List.mem_singleton.1 h ▸ hlegacy) hu
      · cases h
  · simp only [if_neg hg, List.mem_singleton, unitFile_inj, Instance.name_eq, service_dash] at h
    exact server_of_selected hserver hx (.inl h.2)

/-- The end of `remove_service`. -/
private def reload (run : HostCall → Bool) (removed : List (Option String)) : Action (List String) := do
  runCmd run ["systemctl", "daemon-reload"]
  return removed.filterMap id

private theorem reload_moves (removed : List (Option String)) : Moves Eq (reload run removed) := by
  intro host
  unfold reload runCmd
  split <;> rfl

private theorem removeService_loop (hname : validateServerName al serverName = .ok ()) (s : Service) (host : Host) :
    removeService al run s.name serverName host =
      (collect (removeUnit run) (matchingServicePaths s serverName host) >>= reload run) host := by
  unfold removeService
  rw [Service.name_find, hname]
  rfl

private theorem removeService_of_invalid {e : DeploymentError} (hname : validateServerName al serverName = .error e)
    (s : Service) (host : Host) : removeService al run s.name serverName host = (.error (.deployment e), host) := by
  unfold removeService
  rw [Service.name_find, hname]
  rfl

/-- What the loop does to a host the whole call does. -/
private theorem removeService_moves {R : Host → Host → Prop} (hrefl : ∀ host, R host host) (host : Host)
    (hloop : '*' ∉ serverName.toList ∧ '?' ∉ serverName.toList →
      R host (collect (removeUnit run) (matchingServicePaths s serverName host) host).2) :
    R host (removeService al run s.name serverName host).2 := by
  cases hname : validateServerName al serverName with
  | error e =>
    rw [removeService_of_invalid hname]
    exact hrefl host
  | ok u =>
    have hrest := hloop (al.plain (validateName_eq_ok.1 hname).2)
    rw [removeService_loop hname]
    cases hrun : collect (removeUnit run) (matchingServicePaths s serverName host) host with
    | mk r host₁ =>
      rw [hrun] at hrest
      cases r with
      | error e =>
        rw [bind_of_error hrun]
        exact hrest
      | ok removed =>
        rw [bind_of_ok hrun, ← reload_moves removed host₁]
        exact hrest

private theorem removeService_spares (hserver : '-' ∉ serverName.toList) (s : Service) :
    Moves (Host.Sheds (OnlyOf serverName)) (removeService al run s.name serverName) :=
  fun host => removeService_moves Host.Sheds.refl host fun hplain =>
    (collect_sheds (fun _ hu => unitFile_of_mem hplain hu) host).mono fun _ => onlyOf_of_mem hserver hplain

private theorem removeService_staysTidy (hclears : ∀ n, run (.rmtree n) = true) (s : Service) :
    Moves Host.StaysTidy (removeService al run s.name serverName) :=
  fun host => removeService_moves Host.StaysTidy.refl host fun hplain =>
    collect_staysTidy hclears (fun _ hu => unitFile_of_mem hplain hu) host

private theorem removeService_clears {removed : List String}
    (h : removeService al run s.name serverName host = (.ok removed, host')) {x : Instance}
    (htag : ∀ tag ∈ x.groupTag, x.service.grouped = true) (hs : x.service = s) (hx : x.server = serverName) :
    unitFile x.name ∉ host'.units := by
  cases hname : validateServerName al serverName with
  | error e => cases (removeService_of_invalid hname s host).symm.trans h
  | ok u =>
    have hplain := al.plain (validateName_eq_ok.1 hname).2
    have hpaths : ∀ u ∈ matchingServicePaths s serverName host, ∃ n, u = unitFile n :=
      fun _ hu => unitFile_of_mem hplain hu
    rw [removeService_loop hname] at h
    obtain ⟨rs, host₁, hloop, hreload⟩ := bind_eq_ok.1 h
    have heq : host₁ = host' := (reload_moves rs).of_run hreload
    subst heq
    intro hmem
    have hunit : unitFile x.name ∈ host.units := ((collect_sheds hpaths).of_run hloop).units _ hmem
    have hpath := (mem_matchingServicePaths hplain hunit).2 ⟨hs, (selected_iff serverName htag).2 (.inl hx)⟩
    exact notMem_of_collect hpaths hloop _ hpath hmem

/-! ### The request -/

private theorem alphanum_of_isServerNameValid (h : isServerNameValid serverName = true) :
    serverName ≠ "" ∧ ∀ c ∈ serverName.toList, c.isAlphanum = true := by
  unfold isServerNameValid at h
  simp only [Bool.and_eq_true, decide_eq_true_eq, List.all_eq_true] at h
  exact ⟨h.1.1, h.2⟩

theorem dash_notMem_of_isServerNameValid (h : isServerNameValid serverName = true) : '-' ∉ serverName.toList :=
  fun hmem => absurd ((alphanum_of_isServerNameValid h).2 '-' hmem) (by decide)

/-- The deployment server admits the names that the backend admits. -/
private theorem validateServerName_of_isServerNameValid (al : Alphabet) (h : isServerNameValid serverName = true) :
    validateServerName al serverName = .ok () := by
  obtain ⟨hne, halnum⟩ := alphanum_of_isServerNameValid h
  refine validateName_eq_ok.2 ⟨fun hnil => hne (String.toList_eq_nil_iff.1 hnil), fun c hc => ?_⟩
  rw [Alphabet.admits, al.ascii c (visible_of_isAlphanum (halnum c hc)).2, halnum c hc]
  rfl

private theorem Service.name_alphanum (s : Service) : s.name ≠ "" ∧ ∀ c ∈ s.name.toList, c.isAlphanum = true := by
  have hall : s.name.toList.all Char.isAlphanum = true := by cases s <;> decide +kernel
  exact ⟨by cases s <;> decide, List.all_eq_true.1 hall⟩

/-- For a server with a name that the backend admits the request is what `remove_service` does. -/
private theorem postRemoveServer_eq (h : isServerNameValid serverName = true) (s : Service) :
    postRemoveServer al run s.name serverName = removeService al run s.name serverName := by
  have hne : serverName ≠ "" := (alphanum_of_isServerNameValid h).1
  unfold postRemoveServer
  rw [pyStrip_of_visible (visible_of_isServerNameValid h),
    pyStrip_of_visible fun c hc => visible_of_isAlphanum (s.name_alphanum.2 c hc), if_neg hne,
    if_neg s.name_alphanum.1]

/-- The instances of the other servers stay. -/
theorem postRemoveServer_spares (h : isServerNameValid serverName = true) (s : Service) :
    Moves (Host.Sheds (OnlyOf serverName)) (postRemoveServer al run s.name serverName) := by
  rw [postRemoveServer_eq h]
  exact removeService_spares (dash_notMem_of_isServerNameValid h) s

/-- Where no deletion of a directory fails, each directory keeps its unit file. -/
theorem postRemoveServer_staysTidy (h : isServerNameValid serverName = true) (hclears : ∀ n, run (.rmtree n) = true)
    (s : Service) : Moves Host.StaysTidy (postRemoveServer al run s.name serverName) := by
  rw [postRemoveServer_eq h]
  exact removeService_staysTidy hclears s

/-- If the request succeeds, the unit files of the service for the server are gone. -/
theorem postRemoveServer_clears (hvalid : isServerNameValid serverName = true) {removed : List String}
    (h : postRemoveServer al run s.name serverName host = (.ok removed, host')) {x : Instance}
    (htag : ∀ tag ∈ x.groupTag, x.service.grouped = true) (hs : x.service = s) (hx : x.server = serverName) :
    unitFile x.name ∉ host'.units := by
  rw [postRemoveServer_eq hvalid] at h
  exact removeService_clears h htag hs hx

/-- As long as the commands and the deletions work the request succeeds, whatever is on the host. -/
theorem postRemoveServer_of_run (h : isServerNameValid serverName = true) (hrun : ∀ call, run call = true)
    (s : Service) (host : Host) :
    ∃ removed host', postRemoveServer al run s.name serverName host = (.ok removed, host') := by
  rw [postRemoveServer_eq h]
  obtain ⟨removed, host', hremoved, -⟩ := removeService_eq hrun s (validateServerName_of_isServerNameValid al h) host
  exact ⟨removed, host', hremoved⟩

end Elsa.Deployment
