import Elsa.Manager.Process

/-!
# Who may cancel an order

A cancellation that is accepted carries the order id found under the packed key of its sender and `orig_cl_ord_id`,
and where nothing is found the id that the client supplied.  So it names the sender's own order under that client
order id exactly when the sender has submitted one, or when it carries no id at all (`cancelAuthorised_iff`).  An id
supplied by the client is not checked, and two users can share a packed key.
-/

namespace Elsa

open Base

variable (cfg : Config) (A : Arith)

/-- The cancellation `c` is accepted and forwarded as `c'`. -/
def ForwardedAs (om : OrderManager) (c c' : CancelOrderRequest) : Prop :=
  ∃ sent gw cost bc, preprocessContainer cfg A sent gw om (.cancelOrderRequest c) =
      .ok (om, .cancelOrderRequest c', .value (.ok cost)) ∧
    validateContainer cfg A om.balanceChecker cost (.cancelOrderRequest c') = .ok ("ok", bc)

/-- If the cancellation is forwarded, it names an order that its sender submitted under `orig_cl_ord_id`. -/
def CancelAuthorised (m : Manager) (c : CancelOrderRequest) : Prop :=
  ∀ c', ForwardedAs cfg A m.om c c' → ∃ id info, c'.orderId = some id ∧ m.om.orderInfoMap id = some info ∧
    info.senderCompId = c.senderCompId ∧ ⟨id, c.senderCompId, c.origClOrdId⟩ ∈ m.submissions

variable {cfg A}

/-- The cancellation as it is forwarded: with the id under the packed key, or else with its own. -/
private theorem forwardedAs_iff {om : OrderManager} {c c' : CancelOrderRequest} {userId : Int}
    (hu : cfg.usernameUserIdMap c.senderCompId = some userId) :
    ForwardedAs cfg A om c c' ↔
      c' = { c with orderId := (om.orderIdMap.right (transformedClOrdId A c.origClOrdId userId)).or c.orderId } ∧
        c'.orderId ≠ none := by
  have hpre : preprocessCancelRequest cfg A om c =
      ({ c with orderId := (om.orderIdMap.right (transformedClOrdId A c.origClOrdId userId)).or c.orderId },
      .ok none) := by
    unfold preprocessCancelRequest
    simp only [hu]
    cases om.orderIdMap.right (transformedClOrdId A c.origClOrdId userId) <;> rfl
  have hval : ∀ cost bc, validateContainer cfg A om.balanceChecker cost (.cancelOrderRequest c') = .ok ("ok", bc) ↔
      c'.orderId ≠ none ∧ bc = om.balanceChecker := by
    intro cost bc
    cases hid : c'.orderId with
    | none => simp [validateContainer, hid]
    | some id => simp [validateContainer, hid, eq_comm]
  unfold ForwardedAs
  simp only [preprocessContainer, hpre, hval]
  constructor
  · rintro ⟨-, -, cost, bc, heq, hne, -⟩
    cases heq
    exact ⟨rfl, hne⟩
  · rintro ⟨rfl, hne⟩
    exact ⟨true, 0, none, _, rfl, hne, rfl⟩

/-- The exact condition under which cancellations are authorised, in every state that the order manager can reach,
for any integer arithmetic. -/
theorem cancelAuthorised_iff (cfg : Config) (A : Arith) (balances : BalanceChecker) (m : Manager)
    (hm : Manager.Reachable cfg A balances m) (c : CancelOrderRequest) (userId : Int)
    (hu : cfg.usernameUserIdMap c.senderCompId = some userId) :
    CancelAuthorised cfg A m c ↔
      (∃ id, ⟨id, c.senderCompId, c.origClOrdId⟩ ∈ m.submissions) ∨
        (c.orderId = none ∧ m.om.orderIdMap.right (transformedClOrdId A c.origClOrdId userId) = none) := by
  have hok := Manager.ok_of_reachable hm
  constructor
  · intro hauth
    by_cases hnone : c.orderId = none ∧ m.om.orderIdMap.right (transformedClOrdId A c.origClOrdId userId) = none
    · exact Or.inr hnone
    · -- the cancellation is forwarded, so the order it names was submitted by its sender
      left
      have hne : (m.om.orderIdMap.right (transformedClOrdId A c.origClOrdId userId)).or c.orderId ≠ none := by
        intro he
        rw [Option.or_eq_none_iff] at he
        exact hnone ⟨he.2, he.1⟩
      obtain ⟨id, info, -, -, -, hsub⟩ := hauth _ ((forwardedAs_iff hu).2 ⟨rfl, hne⟩)
      exact ⟨id, hsub⟩
  · rintro (⟨id, hsub⟩ | ⟨hid, hkey⟩) c' hf
    · obtain ⟨rfl, -⟩ := (forwardedAs_iff hu).1 hf
      have hleft := (hok.submitted id _).2 ⟨_, hsub, rfl, userId, hu, rfl⟩
      have hright := (m.om.orderIdMap.agree _ _).1 hleft
      obtain ⟨info, hinfo, hse⟩ := hok.sender _ hsub
      exact ⟨id, info, by simp [hright], hinfo, hse, hsub⟩
    · obtain ⟨rfl, hne⟩ := (forwardedAs_iff hu).1 hf
      simp [hid, hkey] at hne

/-- A limit bid of `ann`. -/
def annBid : NewOrderSingle := ⟨"ann", "GME_SERVER", none, 1, "GME", .bid, 10, .limit, some 100, .day⟩

def annSubmits : List Input := [.request (.newOrderSingle annBid) 0 true fun _ => ""]

theorem cancelAuthorised_own :
    ∃ m, exec (Manager.step twoUsers .machine) ⟨.init twoBalances, none, []⟩ annSubmits = some m ∧
    ForwardedAs twoUsers .machine m.om ⟨"ann", "GME_SERVER", none, 1, 2, "GME", .bid, 10⟩
      ⟨"ann", "GME_SERVER", some 0, 1, 2, "GME", .bid, 10⟩ ∧
    CancelAuthorised twoUsers .machine m ⟨"ann", "GME_SERVER", none, 1, 2, "GME", .bid, 10⟩ := by
  have hrun : (exec (Manager.step twoUsers .machine) ⟨.init twoBalances, none, []⟩ annSubmits).any (fun m =>
      decide (⟨0, "ann", 1⟩ ∈ m.submissions) && decide (m.om.orderIdMap.right (transformedClOrdId .machine 1 1) =
        some 0)) =
      true := by decide +kernel
  obtain ⟨m, hm, h⟩ := (Option.any_eq_true _ _).1 hrun
  rw [Bool.and_eq_true, decide_eq_true_eq, decide_eq_true_eq] at h
  refine ⟨m, hm, (forwardedAs_iff (rfl : twoUsers.usernameUserIdMap _ = some 1)).2 ⟨by rw [h.2]; rfl, by simp⟩, ?_⟩
  exact (cancelAuthorised_iff twoUsers .machine twoBalances m (Reach.start.trans_exec hm) _ 1 rfl).2 (Or.inl ⟨0, h.1⟩)

/-- `bob` cancels the order of `ann` by supplying its id. -/
theorem cancel_foreign_order : (∀ u v uid, twoUsers.usernameUserIdMap u = some uid →
      twoUsers.usernameUserIdMap v = some uid → u = v) ∧
    ∃ m, exec (Manager.step twoUsers .machine) ⟨.init twoBalances, none, []⟩ annSubmits = some m ∧
      ForwardedAs twoUsers .machine m.om ⟨"bob", "GME_SERVER", some 0, 5, 6, "GME", .bid, 10⟩
        ⟨"bob", "GME_SERVER", some 0, 5, 6, "GME", .bid, 10⟩ ∧
      (m.om.orderInfoMap 0).map OrderInfo.senderCompId = some "ann" ∧
      ¬ CancelAuthorised twoUsers .machine m ⟨"bob", "GME_SERVER", some 0, 5, 6, "GME", .bid, 10⟩ := by
  refine ⟨twoUsers_injective, ?_⟩
  have hrun : (exec (Manager.step twoUsers .machine) ⟨.init twoBalances, none, []⟩ annSubmits).any (fun m =>
      decide (m.om.orderIdMap.right (transformedClOrdId .machine 5 2) = none) &&
        decide ((m.om.orderInfoMap 0).map OrderInfo.senderCompId = some "ann")) = true := by decide +kernel
  obtain ⟨m, hm, h⟩ := (Option.any_eq_true _ _).1 hrun
  rw [Bool.and_eq_true, decide_eq_true_eq, decide_eq_true_eq] at h
  have hf : ForwardedAs twoUsers .machine m.om ⟨"bob", "GME_SERVER", some 0, 5, 6, "GME", .bid, 10⟩
      ⟨"bob", "GME_SERVER", some 0, 5, 6, "GME", .bid, 10⟩ :=
    (forwardedAs_iff (rfl : twoUsers.usernameUserIdMap _ = some 2)).2 ⟨by rw [h.1]; rfl, by simp⟩
  refine ⟨m, hm, hf, h.2, fun hauth => ?_⟩
  obtain ⟨id, info, hid, hinfo, hse, -⟩ := hauth _ hf
  cases hid
  rw [hinfo, Option.map_some, hse] at h
  exact absurd (Option.some.inj h.2) (by decide)

end Elsa
