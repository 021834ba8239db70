import Elsa.Manager.Process

/-!
# Packed client order ids

The order manager keeps one key for a client order id and a user id, `cl_ord_id * max_user_count + user_id`, and the
reports divide it by `max_user_count` again.  Both go right exactly for the pairs in `Packable`
(`packsSoundly_iff`), and among those no two have the same key (`Packable.injective`).  As long as all orders are
such pairs, a key belongs to one user (`Manager.Ok.right_eq_some_iff`): a new order is a duplicate exactly when its
own user has used the client order id, and the reports name the client order id that the user gave.
-/

namespace Elsa

open Base

/-- The pairs of a client order id and a user id that a key can hold. -/
structure Packable (clOrdId userId : Int) : Prop where
  clOrdId_nonneg : 0 ≤ clOrdId
  userId_lt : userId < maxUserCount
  key_le : clOrdId * maxUserCount + userId ≤ 2147483647

/-- Computing the key of a pair does not overflow, and dividing it gives back the client order id. -/
structure PacksSoundly (clOrdId userId : Int) : Prop where
  product_fits : IsInt32 (clOrdId * maxUserCount)
  sum_fits : IsInt32 (clOrdId * maxUserCount + userId)
  unpacks : Int.tdiv (transformedClOrdId .machine clOrdId userId) maxUserCount = clOrdId

private theorem transformedClOrdId_eq (A : Arith) {clOrdId userId : Int} (h : IsInt32 (clOrdId * maxUserCount))
    (h' : IsInt32 (clOrdId * maxUserCount + userId)) :
    transformedClOrdId A clOrdId userId = clOrdId * maxUserCount + userId := by
  rw [transformedClOrdId, A.int_eq _ h, A.int_eq _ h']

theorem Packable.fits {clOrdId userId : Int} (h : Packable clOrdId userId) (hu : 0 < userId) :
    IsInt32 (clOrdId * maxUserCount) ∧ IsInt32 (clOrdId * maxUserCount + userId) := by
  obtain ⟨hcl, -, hkey⟩ := h
  unfold maxUserCount IsInt32 at *
  omega

/-- Truncating division gives back the client order id exactly when it is not negative and the user id is below the
radix. -/
private theorem tdiv_key_eq_iff {clOrdId userId : Int} (hu : 0 < userId) :
    Int.tdiv (clOrdId * maxUserCount + userId) maxUserCount = clOrdId ↔ 0 ≤ clOrdId ∧ userId < maxUserCount := by
  unfold maxUserCount
  by_cases hkey : 0 ≤ clOrdId * 1000 + userId
  · rw [Int.tdiv_eq_ediv_of_nonneg hkey]
    omega
  · -- a negative key is rounded up, so the result is larger than the negative client order id
    have hneg : Int.tdiv (clOrdId * 1000 + userId) 1000 = -((-(clOrdId * 1000 + userId)) / 1000) := by
      rw [← Int.tdiv_eq_ediv_of_nonneg (by omega), Int.neg_tdiv, Int.neg_neg]
    rw [hneg]
    omega

theorem packsSoundly_iff {clOrdId userId : Int} (hu : 0 < userId) :
    PacksSoundly clOrdId userId ↔ Packable clOrdId userId := by
  constructor
  · rintro ⟨h1, h2, h3⟩
    rw [transformedClOrdId_eq .machine h1 h2, tdiv_key_eq_iff hu] at h3
    exact ⟨h3.1, h3.2, h2.2⟩
  · intro h
    obtain ⟨h1, h2⟩ := h.fits hu
    refine ⟨h1, h2, ?_⟩
    rw [transformedClOrdId_eq .machine h1 h2, tdiv_key_eq_iff hu]
    exact ⟨h.clOrdId_nonneg, h.userId_lt⟩

theorem Packable.injective {clOrdId userId clOrdId' userId' : Int} (h : Packable clOrdId userId)
    (h' : Packable clOrdId' userId') (hu : 0 < userId) (hu' : 0 < userId')
    (heq : transformedClOrdId .machine clOrdId userId = transformedClOrdId .machine clOrdId' userId') :
    clOrdId = clOrdId' ∧ userId = userId' := by
  rw [transformedClOrdId_eq .machine (h.fits hu).1 (h.fits hu).2,
    transformedClOrdId_eq .machine (h'.fits hu').1 (h'.fits hu').2] at heq
  have hlt := h.userId_lt
  have hlt' := h'.userId_lt
  unfold maxUserCount at *
  omega

/-! ### The order manager -/

/-- The ids of the users as the database issues them: positive, and different for different users. -/
structure Config.IssuesIds (cfg : Config) : Prop where
  positive : ∀ u userId, cfg.usernameUserIdMap u = some userId → 0 < userId
  distinct : ∀ u v userId, cfg.usernameUserIdMap u = some userId → cfg.usernameUserIdMap v = some userId → u = v

/-- All orders that the order manager has entered are pairs that a key can hold. -/
def Manager.AllPackable (cfg : Config) (m : Manager) : Prop :=
  ∀ sub ∈ m.submissions, ∀ userId, cfg.usernameUserIdMap sub.senderCompId = some userId → Packable sub.clOrdId userId

variable {cfg : Config} {m : Manager}

/-- A key leads to the order that its user has entered under the client order id, and to no other. -/
theorem Manager.Ok.right_eq_some_iff (h : m.Ok cfg .machine) (hids : cfg.IssuesIds) (hall : m.AllPackable cfg)
    {u : String} {clOrdId userId id : Int} (hu : cfg.usernameUserIdMap u = some userId)
    (hp : Packable clOrdId userId) :
    m.om.orderIdMap.right (transformedClOrdId .machine clOrdId userId) = some id ↔
    ⟨id, u, clOrdId⟩ ∈ m.submissions := by
  rw [← m.om.orderIdMap.agree, h.submitted]
  constructor
  · rintro ⟨⟨id', u', clOrdId'⟩, hsub, rfl, userId', hu', hkey⟩
    obtain ⟨hcl, hus⟩ := hp.injective (hall _ hsub userId' hu') (hids.positive _ _ hu) (hids.positive _ _ hu') hkey
    subst hcl hus
    obtain rfl := hids.distinct _ _ _ hu hu'
    exact hsub
  · intro hsub
    exact ⟨_, hsub, rfl, userId, hu, rfl⟩

/-- The check for duplicates fails exactly when the key is in use. -/
private theorem preprocessNewOrder_duplicate_iff {A : Arith} {om : OrderManager} {o : NewOrderSingle} {userId : Int}
    (sent : Bool) (gw : Int) (hu : cfg.usernameUserIdMap o.senderCompId = some userId) :
    (preprocessNewOrder cfg A sent gw om o).2.2 = .value (.error "Client order id has already been used") ↔
      om.orderIdMap.right (transformedClOrdId A o.clOrdId userId) ≠ none := by
  unfold preprocessNewOrder
  simp only [hu]
  by_cases hk : om.orderIdMap.right (transformedClOrdId A o.clOrdId userId) = none
  · rw [if_pos hk]
    refine iff_of_false (fun heq => ?_) (not_not.2 hk)
    split at heq
    · split at heq
      · cases heq
      · exact absurd (Except.error.inj (Preprocessed.value.inj heq)) (by decide)
    · cases heq
  · rw [if_neg hk]
    exact iff_of_true rfl hk

/-- The key under which an order is entered gives back its client order id. -/
private theorem Manager.Ok.tdiv_key (h : m.Ok cfg .machine) (hids : cfg.IssuesIds) (hall : m.AllPackable cfg)
    {id key : Int} (hkey : m.om.orderIdMap.left id = some key) :
    ∃ sub ∈ m.submissions, sub.orderId = id ∧ Int.tdiv key maxUserCount = sub.clOrdId := by
  obtain ⟨sub, hsub, hid, userId, hu, rfl⟩ := (h.submitted id key).1 hkey
  exact ⟨sub, hsub, hid, ((packsSoundly_iff (hids.positive _ _ hu)).2 (hall sub hsub userId hu)).unpacks⟩

/-- The client order id under which a report names its order: the original one for a cancellation. -/
def ExecutionReport.namedClOrdId (r : ExecutionReport) : Int := r.origClOrdId.getD r.clOrderId

/-- A report on an order divides the key under which the order is entered. -/
private theorem returnExecutionReport_key {om : OrderManager} {ids : Nat → String} {c : Container}
    {reports : List (Int × ExecutionReport)} (h : returnExecutionReport cfg om ids c = .ok reports) :
    ∀ r ∈ reports, ∃ key, om.orderIdMap.left r.2.orderId = some key ∧
      r.2.namedClOrdId = Int.tdiv key maxUserCount := by
  cases c with
  | trade t =>
    simp only [returnExecutionReport, generateMatchedOrderReportContainers, generateMatchedOrderReport, bind_eq_ok,
      orFail_eq_ok] at h
    obtain ⟨taker, ⟨key, hkey, info, -, ht⟩, maker, ⟨key', hkey', info', -, hm⟩, h⟩ := h
    cases ht
    cases hm
    cases h
    intro r hr
    rcases List.mem_cons.1 hr with rfl | hr
    · exact ⟨key, hkey, rfl⟩
    · obtain rfl := List.mem_singleton.1 hr
      exact ⟨key', hkey', rfl⟩
  | cancelOrderResponse r =>
    simp only [returnExecutionReport, generateCancelResponseReportContainer, bind_eq_ok, orFail_eq_ok] at h
    obtain ⟨report, ⟨info, -, key, hkey, hr⟩, h⟩ := h
    cases hr
    cases h
    intro r hr
    obtain rfl := List.mem_singleton.1 hr
    exact ⟨key, hkey, rfl⟩
  | newOrderSingle | cancelOrderRequest | executionReport | fillCostQuery | fillCostResponse => cases h

/-- Packing is sound for two pairs exactly when a key can hold both.  In an order manager that holds only such
pairs, a new order is rejected as a duplicate exactly when its own user has entered an order under the client order
id before, and every report names the client order id under which its order was entered. -/
theorem packing_sound_iff (cfg : Config) (balances : BalanceChecker) (m : Manager)
    (hm : Manager.Reachable cfg .machine balances m) (hids : cfg.IssuesIds) :
    (∀ clOrdId userId clOrdId' userId', 0 < userId → 0 < userId' →
      ((PacksSoundly clOrdId userId ∧ PacksSoundly clOrdId' userId' ∧ ((clOrdId, userId) ≠ (clOrdId', userId') →
          transformedClOrdId .machine clOrdId userId ≠ transformedClOrdId .machine clOrdId' userId')) ↔
        Packable clOrdId userId ∧ Packable clOrdId' userId')) ∧
    (m.AllPackable cfg →
      (∀ o userId sent gw, cfg.usernameUserIdMap o.senderCompId = some userId → Packable o.clOrdId userId →
        ((preprocessNewOrder cfg .machine sent gw m.om o).2.2 = .value
          (.error "Client order id has already been used") ↔
          ∃ id, ⟨id, o.senderCompId, o.clOrdId⟩ ∈ m.submissions)) ∧
      ∀ ids c om out, handleResponse cfg .machine ids m.om c = .ok (om, out) → ∀ r ∈ out.reports,
        ∃ sub ∈ m.submissions, sub.orderId = r.2.orderId ∧ r.2.namedClOrdId = sub.clOrdId) := by
  have hok := Manager.ok_of_reachable hm
  refine ⟨fun clOrdId userId clOrdId' userId' hu hu' => ?_, fun hall => ⟨fun o userId sent gw hu hp => ?_, ?_⟩⟩
  · rw [packsSoundly_iff hu, packsSoundly_iff hu']
    constructor
    · rintro ⟨h, h', -⟩
      exact ⟨h, h'⟩
    · rintro ⟨h, h'⟩
      refine ⟨h, h', fun hne heq => hne ?_⟩
      obtain ⟨rfl, rfl⟩ := h.injective h' hu hu' heq
      rfl
  · rw [preprocessNewOrder_duplicate_iff sent gw hu, Option.ne_none_iff_exists']
    exact exists_congr fun id => hok.right_eq_some_iff hids hall hu hp
  · intro ids c om out hr r hmem
    obtain ⟨hupd, reports, database, hrep, -, rfl⟩ := handleResponse_eq_ok_iff.1 hr
    obtain ⟨key, hkey, hnamed⟩ := returnExecutionReport_key hrep r hmem
    rw [(updateInternalData_fixed hupd).1] at hkey
    obtain ⟨sub, hsub, hid, hdiv⟩ := hok.tdiv_key hids hall hkey
    exact ⟨sub, hsub, hid, hnamed.trans hdiv⟩

/-! ### Sample users -/

private theorem twoUsers_issuesIds : twoUsers.IssuesIds where
  positive u userId h := by
    simp only [twoUsers] at h
    split at h
    · cases h; decide
    · split at h
      · cases h; decide
      · cases h
  distinct := twoUsers_injective

/-- A limit bid for ten shares. -/
def packedBid (u : String) (clOrdId : Int) : NewOrderSingle :=
  ⟨u, "GME_SERVER", none, clOrdId, "GME", .bid, 10, .limit, some 100, .day⟩

def packedRequest (u : String) (clOrdId : Int) :
    Input := .request (.newOrderSingle (packedBid u clOrdId)) 0 true fun _ => ""

/-- `ann` uses a client order id that `bob` has used. -/
theorem packing_sound_sample : ∃ m, Manager.Reachable twoUsers .machine twoBalances m ∧ m.AllPackable twoUsers ∧
    (preprocessNewOrder twoUsers .machine true 0 m.om (packedBid "bob" 1)).2.2 =
      .value (.error "Client order id has already been used") ∧
    (preprocessNewOrder twoUsers .machine true 0 m.om (packedBid "ann" 1)).2.2 ≠
      .value (.error "Client order id has already been used") := by
  have hrun : (exec (Manager.step twoUsers .machine) ⟨.init twoBalances, none, []⟩ [packedRequest "bob" 1]).any
      (fun m =>
      decide (m.submissions = [⟨0, "bob", 1⟩])) = true := by decide +kernel
  obtain ⟨m, hreach, h⟩ := Reach.exists_of_exec hrun
  have hsub := of_decide_eq_true h
  have hall : m.AllPackable twoUsers := by
    intro sub hmem userId hu
    rw [hsub, List.mem_singleton] at hmem
    subst hmem
    cases (show twoUsers.usernameUserIdMap "bob" = some 2 from rfl).symm.trans hu
    exact ⟨by decide, by decide, by decide⟩
  have hdup := ((packing_sound_iff twoUsers twoBalances m hreach twoUsers_issuesIds).2 hall).1
  refine ⟨m, hreach, hall, ?_, ?_⟩
  · refine (hdup (packedBid "bob" 1) 2 true 0 rfl ⟨by decide, by decide, by decide⟩).2 ⟨0, ?_⟩
    rw [hsub]
    exact List.mem_singleton_self _
  · refine mt (hdup (packedBid "ann" 1) 1 true 0 rfl ⟨by decide, by decide, by decide⟩).1 ?_
    rintro ⟨id, hmem⟩
    rw [hsub, List.mem_singleton] at hmem
    have hsender : "ann" = "bob" := congrArg Submission.senderCompId hmem
    exact absurd hsender (by decide)

/-- `ann` has the first user id, `zoe` the one a thousand later. -/
def distantUsers : Config where
  serverName := "GME_SERVER"
  serverId := 1
  activeSymbols := ["GME"]
  usernameUserIdMap u := if u = "ann" then some 1 else if u = "zoe" then some 1001 else none
  symbols_nulFree := twoUsers.symbols_nulFree
  users_nulFree u hu := by
    by_cases hann : u = "ann"
    · subst hann
      decide
    · by_cases hzoe : u = "zoe"
      · subst hzoe
        decide
      · exact absurd (by simp [hann, hzoe]) hu

/-- The first order of `zoe` is rejected as a duplicate of an order of `ann`.  Negative client order ids are not
given back, and large ones overflow. -/
theorem packed_keys_collide :
    transformedClOrdId .machine 1 1001 = transformedClOrdId .machine 2 1 ∧
    (∃ m, Manager.Reachable distantUsers .machine twoBalances m ∧ m.submissions = [⟨0, "ann", 2⟩] ∧
      (preprocessNewOrder distantUsers .machine true 0 m.om (packedBid "zoe" 1)).2.2 =
        .value (.error "Client order id has already been used")) ∧
    Int.tdiv (transformedClOrdId .machine (-1) 5) maxUserCount = 0 ∧
    IsInt32 2147484 ∧ ¬ IsInt32 (2147484 * maxUserCount) ∧
    Int.tdiv (transformedClOrdId .machine 2147484 1) maxUserCount = -2147483 := by
  refine ⟨by decide, ?_, by decide, by decide, by decide, by decide⟩
  have hrun : (exec (Manager.step distantUsers .machine) ⟨.init twoBalances, none, []⟩ [packedRequest "ann" 2]).any
      (fun m =>
      decide (m.submissions = [⟨0, "ann", 2⟩]) &&
        decide (m.om.orderIdMap.right (transformedClOrdId .machine 1 1001) ≠ none)) = true := by decide +kernel
  obtain ⟨m, hreach, h⟩ := Reach.exists_of_exec hrun
  rw [Bool.and_eq_true, decide_eq_true_eq, decide_eq_true_eq] at h
  refine ⟨m, hreach, h.1, ?_⟩
  exact (preprocessNewOrder_duplicate_iff true 0 (rfl : distantUsers.usernameUserIdMap "zoe" = some 1001)).2 h.2

end Elsa
