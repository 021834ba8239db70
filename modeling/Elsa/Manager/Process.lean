import Elsa.Manager.Spec

/-!
# The order manager as a process

The states of `OrderManager::run` between two messages: the maps and balances, and the market bid it waits for, if
any. Requests, answers to queries and responses come from an arbitrary environment, and an arithmetic is a
parameter, so that the results hold for exact and for wrapping integers.  `submissions` is not part of the program:
it records which user submitted which order under which client order id when the order was entered in
`order_id_map`.

`Manager.Ok` is the invariant of the two maps: they have the same ids, the keys are those of the submissions, and
each order belongs to the user who submitted it.
-/

namespace Elsa

open Base

/-- An order that was entered in `order_id_map`: its id, its user and the client order id it came under. -/
structure Submission where
  orderId : Int
  senderCompId : String
  clOrdId : Int
deriving DecidableEq, Repr

structure Manager where
  om : OrderManager
  waiting : Option (NewOrderSingle × Int)
  submissions : List Submission

/-- What reaches the order manager, with what it draws from outside. -/
inductive Input
  | request (container : Container) (arrivalGatewayId : Int) (querySent : Bool) (ids : Nat → String)
  | answer (container : Container) (ids : Nat → String)
  | response (container : Container) (ids : Nat → String)

section

variable (cfg : Config) (A : Arith)

/-- The submission that a request adds. -/
def newSubmission (om : OrderManager) : Container → List Submission
  | .newOrderSingle o =>
    match cfg.usernameUserIdMap o.senderCompId with
    | some userId =>
      if om.orderIdMap.right (transformedClOrdId A o.clOrdId userId) = none ∧
          om.orderIdMap.left (A.int (om.latestAssignedOrderId + 1)) = none then
        [⟨A.int (om.latestAssignedOrderId + 1), o.senderCompId, o.clOrdId⟩]
      else []
    | none => []
  | _ => []

/-- One message; `none` if it is not taken in this state or the process stops. -/
def Manager.step (m : Manager) : Input → Option Manager
  | .request c gw sent ids =>
    match m.waiting, handleRequest cfg A sent gw ids m.om c with
    | none, .ok (om, .done _) => some ⟨om, none, m.submissions ++ newSubmission cfg A m.om c⟩
    | none, .ok (om, .waiting o _) => some ⟨om, some (o, gw), m.submissions ++ newSubmission cfg A m.om c⟩
    | _, _ => none
  | .answer c ids =>
    match m.waiting with
    | some (o, gw) =>
      match completeRequest cfg A gw ids m.om o c with
      | .ok (om, _) => some ⟨om, none, m.submissions⟩
      | .error _ => none
    | none => none
  | .response c ids =>
    match m.waiting, handleResponse cfg A ids m.om c with
    | none, .ok (om, _) => some ⟨om, none, m.submissions⟩
    | _, _ => none

/-- The states that runs from the given balances pass through. -/
abbrev Manager.Reachable (balances : BalanceChecker) : Manager → Prop :=
  Reach (Manager.step cfg A) (fun _ _ => True) ⟨.init balances, none, []⟩

end

variable {cfg : Config} {A : Arith}

/-! ### What a step is -/

/-- A request is taken when no market bid waits; it is done, or its order waits from then on. -/
theorem Manager.step_request {m m' : Manager} {c : Container} {gw : Int} {sent : Bool} {ids : Nat → String}
    (hs : m.step cfg A (.request c gw sent ids) = some m') :
    m.waiting = none ∧ ∃ om res waiting, handleRequest cfg A sent gw ids m.om c = .ok (om, res) ∧
      m' = ⟨om, waiting, m.submissions ++ newSubmission cfg A m.om c⟩ ∧
      ((∃ out, res = .done out ∧ waiting = none) ∨ ∃ o q, res = .waiting o q ∧ waiting = some (o, gw)) := by
  simp only [Manager.step] at hs
  split at hs
  · rename_i om out hw hr
    cases hs
    exact ⟨hw, om, _, none, hr, rfl, Or.inl ⟨out, rfl, rfl⟩⟩
  · rename_i om o q hw hr
    cases hs
    exact ⟨hw, om, _, _, hr, rfl, Or.inr ⟨o, q, rfl, rfl⟩⟩
  · cases hs

/-- An answer is taken when a market bid waits, and completes it. -/
theorem Manager.step_answer {m m' : Manager} {c : Container} {ids : Nat → String}
    (hs : m.step cfg A (.answer c ids) = some m') :
    ∃ o gw om out, m.waiting = some (o, gw) ∧ completeRequest cfg A gw ids m.om o c = .ok (om, out) ∧
      m' = ⟨om, none, m.submissions⟩ := by
  simp only [Manager.step] at hs
  split at hs
  · rename_i o gw hw
    split at hs
    · rename_i om out hr
      cases hs
      exact ⟨o, gw, om, out, hw, hr, rfl⟩
    · cases hs
  · cases hs

/-- A response is taken when no market bid waits. -/
theorem Manager.step_response {m m' : Manager} {c : Container} {ids : Nat → String}
    (hs : m.step cfg A (.response c ids) = some m') :
    m.waiting = none ∧ ∃ om, updateInternalData A m.om c = .ok om ∧ m' = ⟨om, none, m.submissions⟩ := by
  simp only [Manager.step] at hs
  split at hs
  · rename_i om out hw hr
    cases hs
    exact ⟨hw, om, (handleResponse_eq_ok_iff.1 hr).1, rfl⟩
  · cases hs

/-! ### What responses leave alone -/

/-- The part of an order's entry that never changes. -/
def OrderInfo.fixed (info : OrderInfo) : String × String × Side × Option Int :=
  (info.senderCompId, info.symbol, info.side, info.price)

private theorem fixed_update {infos : Int → Option OrderInfo} {id : Int} {info : OrderInfo} (h : infos id = some info)
    (price quantity : Int) (id' : Int) :
    (Function.update infos id (some (info.filled A price quantity)) id').map OrderInfo.fixed =
      (infos id').map OrderInfo.fixed := by
  rw [Function.update_apply]
  split
  · rename_i he
    rw [he, h]
    rfl
  · rfl

/-- A response changes neither the ids nor the fixed parts of the orders. -/
theorem updateInternalData_fixed {om om' : OrderManager} {c : Container} (h : updateInternalData A om c = .ok om') :
    om'.orderIdMap = om.orderIdMap ∧ om'.latestAssignedOrderId = om.latestAssignedOrderId ∧
      ∀ id, (om'.orderInfoMap id).map OrderInfo.fixed = (om.orderInfoMap id).map OrderInfo.fixed := by
  cases c with
  | trade t =>
    simp only [updateInternalData, bind_eq_ok, require_eq_ok, applyTradeTo_eq_ok_iff] at h
    obtain ⟨-, -, infos₁, ⟨i₁, h₁, -, rfl⟩, infos₂, ⟨i₂, h₂, -, rfl⟩, bc₁, -, bi, -, bc₂, -, bc₃, -, h⟩ := h
    cases h
    exact ⟨rfl, rfl, fun id => (fixed_update h₂ _ _ id).trans (fixed_update h₁ _ _ id)⟩
  | cancelOrderResponse r =>
    obtain ⟨id, clOrdId, success⟩ := r
    cases success with
    | true =>
      obtain ⟨info, price, bc', -, -, -, rfl⟩ := updateInternalData_cancel.1 h
      exact ⟨rfl, rfl, fun _ => rfl⟩
    | false => cases h; exact ⟨rfl, rfl, fun _ => rfl⟩
  | newOrderSingle => cases h
  | cancelOrderRequest => cases h
  | executionReport => cases h
  | fillCostQuery => cases h
  | fillCostResponse => cases h

/-! ### The maps and the submissions -/

/-- The maps hold exactly the submissions. -/
structure Manager.Ok (cfg : Config) (A : Arith) (m : Manager) : Prop where
  domain : ∀ id, m.om.orderIdMap.left id = none ↔ m.om.orderInfoMap id = none
  submitted : ∀ id key, m.om.orderIdMap.left id = some key ↔ ∃ sub ∈ m.submissions, sub.orderId = id ∧
    ∃ userId, cfg.usernameUserIdMap sub.senderCompId = some userId ∧ key = transformedClOrdId A sub.clOrdId userId
  sender : ∀ sub ∈ m.submissions, ∃ info, m.om.orderInfoMap sub.orderId = some info ∧
    info.senderCompId = sub.senderCompId

private theorem Manager.init_ok (balances : BalanceChecker) : Manager.Ok cfg A ⟨.init balances, none, []⟩ where
  domain _ := ⟨fun _ => rfl, fun _ => rfl⟩
  submitted _ _ := ⟨nofun, fun ⟨_, h, _⟩ => absurd h List.not_mem_nil⟩
  sender _ h := by cases h

/-- Only the maps matter. -/
theorem Manager.Ok.congr {m m' : Manager} (h : m.Ok cfg A) (h1 : m'.om.orderIdMap = m.om.orderIdMap)
    (h2 : ∀ id, (m'.om.orderInfoMap id).map OrderInfo.fixed = (m.om.orderInfoMap id).map OrderInfo.fixed)
    (h3 : m'.submissions = m.submissions) : m'.Ok cfg A where
  domain id := by
    rw [h1, h.domain, ← Option.map_eq_none_iff (f := OrderInfo.fixed), ← h2, Option.map_eq_none_iff]
  submitted id key := by rw [h1, h3]; exact h.submitted id key
  sender sub hs := by
    obtain ⟨info, hinf, hse⟩ := h.sender sub (h3 ▸ hs)
    have := h2 sub.orderId
    rw [hinf, Option.map_some, Option.map_eq_some_iff] at this
    obtain ⟨info', hinf', hfix⟩ := this
    exact ⟨info', hinf', (congrArg Prod.fst hfix).trans hse⟩

/-- An order is entered under an id and a key that are new. -/
theorem Manager.Ok.add {m : Manager} (h : m.Ok cfg A) {sub : Submission} {userId : Int} {info : OrderInfo}
    {om' : OrderManager} {waiting : Option (NewOrderSingle × Int)}
    (hu : cfg.usernameUserIdMap sub.senderCompId = some userId) (hid : m.om.orderIdMap.left sub.orderId = none)
    (hk : m.om.orderIdMap.right (transformedClOrdId A sub.clOrdId userId) = none)
    (hsender : info.senderCompId = sub.senderCompId)
    (hmap : om'.orderIdMap = m.om.orderIdMap.insert sub.orderId (transformedClOrdId A sub.clOrdId userId))
    (hinfo : om'.orderInfoMap = emplace m.om.orderInfoMap sub.orderId info) :
    Manager.Ok cfg A ⟨om', waiting, m.submissions ++ [sub]⟩ := by
  have hfree := (h.domain _).1 hid
  have hl := Bimap.left_insert hid hk
  have hi := emplace_of_free hfree info
  refine ⟨fun id => ?_, fun id key => ?_, fun sub' hs => ?_⟩
  · simp only [hmap, hinfo, hl, hi]
    split
    · simp
    · exact h.domain id
  · simp only [hmap, hl, List.mem_append, List.mem_singleton]
    split
    · rename_i heq
      subst heq
      constructor
      · intro he
        cases he
        exact ⟨sub, Or.inr rfl, rfl, userId, hu, rfl⟩
      · rintro ⟨sub', hs | rfl, hsid, uid, huid, rfl⟩
        · have := (h.submitted _ _).2 ⟨sub', hs, hsid, uid, huid, rfl⟩
          rw [hid] at this
          cases this
        · rw [hu] at huid
          cases huid
          rfl
    · rename_i hne
      rw [h.submitted]
      constructor
      · rintro ⟨sub', hs, hrest⟩
        exact ⟨sub', Or.inl hs, hrest⟩
      · rintro ⟨sub', hs | rfl, hsid, hrest⟩
        · exact ⟨sub', hs, hsid, hrest⟩
        · exact absurd hsid.symm hne
  · simp only [hinfo, hi]
    rcases List.mem_append.1 hs with hs | hs
    · obtain ⟨info', hinf, hse⟩ := h.sender sub' hs
      refine ⟨info', ?_, hse⟩
      rw [if_neg, hinf]
      intro he
      rw [he, hfree] at hinf
      cases hinf
    · rw [List.mem_singleton.1 hs]
      exact ⟨info, if_pos rfl, hsender⟩

/-- Registering an order keeps the maps in step with the submissions. -/
theorem Manager.Ok.register {m : Manager} (h : m.Ok cfg A) {o : NewOrderSingle} {userId : Int}
    (hu : cfg.usernameUserIdMap o.senderCompId = some userId)
    (hk : m.om.orderIdMap.right (transformedClOrdId A o.clOrdId userId) = none) {om' : OrderManager} {gw : Int}
    {waiting : Option (NewOrderSingle × Int)}
    (hmap : om'.orderIdMap = m.om.orderIdMap.insert (A.int (m.om.latestAssignedOrderId + 1))
      (transformedClOrdId A o.clOrdId userId))
    (hinfo : om'.orderInfoMap = emplace m.om.orderInfoMap (A.int (m.om.latestAssignedOrderId + 1))
      (.ofNewOrder (o.assigned (A.int (m.om.latestAssignedOrderId + 1))) gw)) :
    Manager.Ok cfg A ⟨om', waiting, m.submissions ++ newSubmission cfg A m.om (.newOrderSingle o)⟩ := by
  -- the counter may have wrapped around to an id in use: then nothing is inserted
  by_cases hleft : m.om.orderIdMap.left (A.int (m.om.latestAssignedOrderId + 1)) = none
  · have hsub : newSubmission cfg A m.om (.newOrderSingle o) =
        [⟨A.int (m.om.latestAssignedOrderId + 1), o.senderCompId, o.clOrdId⟩] := by
      simp only [newSubmission, hu]
      exact if_pos ⟨hk, hleft⟩
    rw [hsub]
    exact h.add hu hleft hk rfl hmap hinfo
  · have hsub : newSubmission cfg A m.om (.newOrderSingle o) = [] := by
      simp only [newSubmission, hu]
      exact if_neg fun hc => hleft hc.2
    obtain ⟨info, hinf⟩ := Option.ne_none_iff_exists'.1 (mt (h.domain _).2 hleft)
    have hinfo' : om'.orderInfoMap = m.om.orderInfoMap := hinfo.trans (emplace_of_bound hinf _)
    rw [hsub, List.append_nil]
    exact h.congr (hmap.trans (Bimap.insert_of_bound hleft)) (fun id => by rw [hinfo']) rfl

private theorem newSubmission_of_not_registered {om : OrderManager} {o : NewOrderSingle}
    (h : ∀ userId, cfg.usernameUserIdMap o.senderCompId = some userId →
      om.orderIdMap.right (transformedClOrdId A o.clOrdId userId) ≠ none) :
    newSubmission cfg A om (.newOrderSingle o) = [] := by
  simp only [newSubmission]
  split
  · rename_i userId hu
    exact if_neg fun hc => h userId hu hc.1
  · rfl

/-- One message keeps the maps in step with the submissions. -/
theorem Manager.Ok.step {m m' : Manager} {i : Input} (h : m.Ok cfg A) (hs : m.step cfg A i = some m') :
    m'.Ok cfg A := by
  cases i with
  | request c gw sent ids =>
    obtain ⟨-, om, res, waiting, hr, rfl, -⟩ := Manager.step_request hs
    cases c with
    | newOrderSingle o =>
      rcases handleRequest_newOrder hr with ⟨hnot, rfl, -⟩ | ⟨userId, hu, hk, hrest⟩
      · exact h.congr rfl (fun _ => rfl) (by rw [newSubmission_of_not_registered hnot]; exact List.append_nil _)
      · rcases hrest with ⟨rfl, -⟩ | ⟨-, bc', out, -, rfl, -⟩ | ⟨-, -, -, rfl, -⟩ <;> exact h.register hu hk rfl rfl
    | cancelOrderRequest c =>
      obtain ⟨rfl, -⟩ := handleRequest_cancel hr
      exact h.congr rfl (fun _ => rfl) (List.append_nil _)
    | executionReport => cases hr
    | fillCostQuery => cases hr
    | fillCostResponse => cases hr
    | trade => cases hr
    | cancelOrderResponse => cases hr
  | answer c ids =>
    obtain ⟨o, gw, om, out, -, hr, rfl⟩ := Manager.step_answer hs
    obtain ⟨cost, -, ⟨rfl, -⟩ | ⟨bc', -, rfl, -⟩⟩ := completeRequest_ok hr <;> exact h.congr rfl (fun _ => rfl) rfl
  | response c ids =>
    obtain ⟨-, om, hu, rfl⟩ := Manager.step_response hs
    obtain ⟨h1, -, h3⟩ := updateInternalData_fixed hu
    exact h.congr h1 h3 rfl

theorem Manager.ok_of_reachable {balances : BalanceChecker} {m : Manager} (h : Manager.Reachable cfg A balances m) :
    m.Ok cfg A :=
  h.invariant (Manager.init_ok balances) fun _ _ _ hok _ hs => hok.step hs

/-! ### A small configuration -/

/-- Two users, `ann` and `bob`, and one symbol. -/
def twoUsers : Config where
  serverName := "GME_SERVER"
  serverId := 1
  activeSymbols := ["GME"]
  usernameUserIdMap u := if u = "ann" then some 1 else if u = "bob" then some 2 else none
  symbols_nulFree := by decide
  users_nulFree u hu := by
    by_cases hann : u = "ann"
    · subst hann
      decide
    · by_cases hbob : u = "bob"
      · subst hbob
        decide
      · exact absurd (by simp [hann, hbob]) hu

/-- Both users have dollars, `bob` has shares. -/
def twoBalances : BalanceChecker := fun u =>
  if u = "ann" then some fun tk => if tk = "USD" then some 100000 else none
  else if u = "bob" then some fun tk => if tk = "USD" then some 100000 else if tk = "GME" then some 50 else none
  else none

theorem twoBalances_entry {u tk : String} {x : Int} (hx : twoBalances.entry u tk = some x) : x = 100000 ∨ x = 50 := by
  unfold BalanceChecker.entry twoBalances at hx
  split at hx
  · simp only [Option.bind_some] at hx
    split at hx
    · cases hx; exact Or.inl rfl
    · cases hx
  · split at hx
    · simp only [Option.bind_some] at hx
      split at hx
      · cases hx; exact Or.inl rfl
      · split at hx
        · cases hx; exact Or.inr rfl
        · cases hx
    · cases hx

theorem twoBalances_nonneg : twoBalances.Nonneg := by
  intro u tk x hx
  rcases twoBalances_entry hx with rfl | rfl <;> decide

theorem twoUsers_injective : ∀ u v uid, twoUsers.usernameUserIdMap u = some uid →
    twoUsers.usernameUserIdMap v = some uid → u = v := by
  have hcases : ∀ u uid, twoUsers.usernameUserIdMap u = some uid → (uid = 1 ∧ u = "ann") ∨ (uid = 2 ∧ u = "bob") := by
    intro u uid h
    simp only [twoUsers] at h
    split at h
    · rename_i hu; cases h; exact Or.inl ⟨rfl, hu⟩
    · split at h
      · rename_i hu; cases h; exact Or.inr ⟨rfl, hu⟩
      · cases h
  intro u v uid hu hv
  rcases hcases u uid hu with ⟨rfl, rfl⟩ | ⟨rfl, rfl⟩ <;> rcases hcases v _ hv with ⟨h, rfl⟩ | ⟨h, rfl⟩ <;> simp_all

end Elsa
