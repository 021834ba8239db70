import Mathlib.Data.List.Forall2
import Elsa.Backend.Calls

/-!
# Users by their names

The table of the users has unique ids and unique names, so that it relates the two one to one (`HasId`).  Looking up
names gives the related ids (`resolveUserIds_ok`).  `handle_signup` takes every name that is not taken
(`handleSignup_of_free`).
-/

namespace Elsa.Backend

open Base Effect

/-- The user with the name has the id. -/
def Store.HasId (st : Store) (username : String) (userId : Int) : Prop := ⟨userId, username⟩ ∈ st.users

theorem Store.hasId_biUnique (st : Store) : Relator.BiUnique st.HasId := by
  constructor
  · intro name userId name' h h'
    exact congrArg UserRow.username (List.inj_on_of_nodup_map st.user_key h h' rfl)
  · intro name userId userId' h h'
    exact congrArg UserRow.userId (List.inj_on_of_nodup_map st.user_name h h' rfl)

theorem Store.getUser_eq_some {st : Store} {username : String} {u : UserRow} (h : st.getUser username = some u) :
    st.HasId username u.userId := by
  unfold getUser at h
  have hname : u.username = username := by simpa using List.find?_some h
  exact hname ▸ List.mem_of_find?_eq_some h

variable {env : Env}

theorem getUser_ok {username : String} {w w' : World} {user : Option UserRow}
    (h : getUser env username w = (.ok user, w')) : user = w.store.getUser username ∧ w'.store = w.store := by
  obtain ⟨huser, hstore⟩ := Prod.mk.inj (Option.some.inj (transaction_eq_ok h))
  exact ⟨huser.symm, hstore.symm⟩

private theorem resolveUserId_ok {username : String} {w w' : World} {userId : Int}
    (h : resolveUserId env username w = (.ok userId, w')) :
    w'.store = w.store ∧ w'.store.HasId username userId := by
  obtain ⟨user, w₁, hget, h⟩ := bind_eq_ok.1 h
  obtain ⟨rfl, hstore⟩ := getUser_ok hget
  cases hfind : w.store.getUser username with
  | none =>
    rw [hfind] at h
    cases h
  | some u =>
    rw [hfind] at h
    cases h
    exact ⟨hstore, hstore ▸ Store.getUser_eq_some hfind⟩

theorem resolveUserIds_ok {names : List String} {ids : List Int} {w w' : World}
    (h : resolveUserIds env names w = (.ok ids, w')) :
    w'.store = w.store ∧ List.Forall₂ w.store.HasId names ids := by
  obtain ⟨hstore, hids⟩ := forall₂_of_collect (fun w w' : World => w'.store = w.store) (fun w => w.store.HasId)
    (fun _ => rfl) (fun _ _ _ h h' => h'.trans h) (fun _ _ _ _ h hid => h ▸ hid)
    (fun _ _ _ _ h => resolveUserId_ok h) h
  exact ⟨hstore, hstore ▸ hids⟩

theorem mem_iff_of_hasId {st : Store} {names : List String} {ids : List Int} (h : List.Forall₂ st.HasId names ids)
    (userId : Int) : userId ∈ ids ↔ ∃ name ∈ names, st.HasId name userId := by
  constructor
  · exact exists_of_forall₂ h
  · rintro ⟨name, hname, hid⟩
    exact (List.rel_mem st.hasId_biUnique hid h).1 hname

/-! ### Signing up -/

structure SignupResponse where
  success : Bool
  errMsg : String
deriving DecidableEq, Repr

/-- `handle_signup`; the passwords of the table are not kept here. -/
def handleSignup (env : Env) (params : List (String × String)) : Handler SignupResponse :=
  match params.lookup "user_name", params.lookup "password" with
  | some userName, some _ => do
    match ← attempt (createUser env userName) with
    | .error _ => return ⟨false, "Username already exists"⟩
    | .ok _ => return ⟨true, ""⟩
  | _, _ => return ⟨false, "Missing user_name or password"⟩

/-- A name that is not taken is admitted, whatever it is, when the database takes the call. -/
theorem handleSignup_of_free {params : List (String × String)} {userName password : String} {w : World}
    (hname : params.lookup "user_name" = some userName) (hpassword : params.lookup "password" = some password)
    (hup : env.down w.calls = false) (hid : env.newUserId w.calls ∉ w.store.users.map UserRow.userId)
    (hfree : userName ∉ w.store.users.map UserRow.username) :
    ∃ w', handleSignup env params w = (.ok ⟨true, ""⟩, w') ∧ w'.store.HasId userName (env.newUserId w.calls) := by
  obtain ⟨st, hcreate, huser⟩ : ∃ st, w.store.createUser (env.newUserId w.calls) userName = some st ∧
      st.HasId userName (env.newUserId w.calls) :=
    ⟨_, dif_pos ⟨hid, hfree⟩, List.mem_append_right _ (List.mem_singleton.2 rfl)⟩
  have hcall : attempt (createUser env userName) w =
      (.ok (.ok (env.newUserId w.calls)), ⟨st, w.log ++ [.createUser userName]⟩) := by
    simp [attempt, createUser, transaction, hup, hcreate]
  refine ⟨⟨st, w.log ++ [.createUser userName]⟩, ?_, huser⟩
  rw [handleSignup, hname, hpassword]
  exact bind_of_ok hcall _

end Elsa.Backend
