import Elsa.Manager.Process

/-!
# Which requests the order manager survives

A request is served if it runs to its end without a fault and produces one report, to its sender.  In every state
that the order manager can reach this is so exactly for the requests of `CanServe` (`served_iff`):

* a new order that reaches the balances must not be an ask on a symbol without a name, and the balance that is read
  must not be negative;
* a cancellation must be found under its packed key, or carry no order id, or the id of a registered order.
-/

namespace Elsa

open Base

/-- A request from a gateway to its end; `cost` is the answer to its query, should it make one. -/
def serveRequest (cfg : Config) (A : Arith) (sent : Bool) (gw : Int) (ids : Nat → String) (om : OrderManager)
    (c : Container) (cost : Option Int) : Except Fault (OrderManager × Output) := do
  let (om, outcome) ← handleRequest cfg A sent gw ids om c
  match outcome with
  | .done out => return (om, out)
  | .waiting newOrder _ => completeRequest cfg A gw ids om newOrder (.fillCostResponse ⟨cost⟩)

/-- A result with exactly one report, which goes to the gateway and names the sender. -/
def OneReport (gw : Int) (sender : String) (r : Except Fault (OrderManager × Output)) : Prop :=
  ∃ om out report, r = .ok (om, out) ∧ out.reports = [(gw, report)] ∧ report.targetCompId = sender

/-- The request runs to its end with one report, whatever the sends return and the query is answered. -/
def Served (cfg : Config) (A : Arith) (om : OrderManager) (c : Container) : Prop :=
  ∀ sent gw ids cost, OneReport gw c.senderCompId (serveRequest cfg A sent gw ids om c cost)

/-- The checks before the balances are passed. -/
structure ReachesBalance (cfg : Config) (bc : BalanceChecker) (o : NewOrderSingle) : Prop where
  symbol_active : o.symbol ∈ cfg.activeSymbols
  price_pos : ∀ p, o.price = some p → 0 < p
  qty_pos : 0 < o.orderQty
  broker : bc.brokerIdExists o.senderCompId = true

/-- The balance that is read can be read. -/
def Readable (bc : BalanceChecker) (o : NewOrderSingle) : Prop :=
  match o.side with
  | .bid => ∀ x, bc.entry o.senderCompId usdSymbol = some x → 0 ≤ x
  | .ask => o.symbol ≠ "" ∧ ∀ x, bc.entry o.senderCompId o.symbol = some x → 0 ≤ x

/-- The requests that are served. -/
def CanServe (cfg : Config) (A : Arith) (om : OrderManager) : Container → Prop
  | .newOrderSingle o => ∀ userId, cfg.usernameUserIdMap o.senderCompId = some userId →
      om.orderIdMap.right (transformedClOrdId A o.clOrdId userId) = none →
      ReachesBalance cfg om.balanceChecker o → Readable om.balanceChecker o
  | .cancelOrderRequest c =>
      (∃ userId, cfg.usernameUserIdMap c.senderCompId = some userId ∧
        om.orderIdMap.right (transformedClOrdId A c.origClOrdId userId) ≠ none) ∨
      ∀ id, c.orderId = some id → om.orderInfoMap id ≠ none
  | _ => False

variable {cfg : Config} {A : Arith}

/-! ### Validation -/

theorem reserve_eq_ok {bc : BalanceChecker} {u ticker insufficient : String} {delta x : Int} (htk : ticker ≠ "")
    (hx : bc.entry u ticker = some x) (h0 : 0 ≤ x) (hd : 0 ≤ A.int64 (x + delta)) :
    reserve A bc u ticker delta insufficient = .ok ("ok", bc.updated A u ticker delta) := by
  have hupd : bc.updateBalance A u ticker delta = .ok (bc.updated A u ticker delta) :=
    BalanceChecker.updateBalance_eq_ok_iff.2 ⟨htk, fun y hy => by rw [hx] at hy; cases hy; exact ⟨h0, hd⟩, rfl⟩
  rw [reserve, BalanceChecker.hasSufficientBalance_eq hx h0]
  simp only [ok_bind, hd, decide_true, if_true, hupd]
  rfl

private theorem reserve_total {bc : BalanceChecker} {u ticker insufficient : String} {delta : Int} {x : Int}
    (htk : ticker ≠ "") (hx : bc.entry u ticker = some x) (h0 : 0 ≤ x) :
    ∃ r, reserve A bc u ticker delta insufficient = .ok r := by
  by_cases hd : 0 ≤ A.int64 (x + delta)
  · exact ⟨_, reserve_eq_ok htk hx h0 hd⟩
  · rw [reserve, BalanceChecker.hasSufficientBalance_eq hx h0]
    simp only [ok_bind, hd, decide_false]
    exact ⟨_, rfl⟩

theorem price_checked {price : Option Int} (h : ∀ p, price = some p → 0 < p) :
    ¬ price.any (fun p => decide (p ≤ 0)) = true := by
  cases price with
  | none => simp
  | some p => simpa using h p rfl

/-- Validation comes to an end if the balance it reads can be read. -/
theorem validateNewOrder_total {bc : BalanceChecker} {cost : Option Int} {o : NewOrderSingle}
    (hshape : o.ordType = .limit → o.price.isSome = true) (h : ReachesBalance cfg bc o → Readable bc o) :
    ∃ r, validateNewOrder cfg A bc cost o = .ok r := by
  unfold validateNewOrder
  split
  · exact ⟨_, rfl⟩
  rename_i hsym
  split
  · exact ⟨_, rfl⟩
  rename_i hprice
  split
  · exact ⟨_, rfl⟩
  rename_i hqty
  split
  · exact ⟨_, rfl⟩
  rename_i hb
  -- all checks before the balance have passed
  have hbroker : bc.brokerIdExists o.senderCompId = true := by simpa using hb
  have hread := h ⟨not_not.1 hsym, fun p hp => by rw [hp] at hprice; simpa using hprice, not_le.1 hqty, hbroker⟩
  unfold Readable at hread
  cases hside : o.side with
  | bid =>
    rw [hside] at hread
    simp only [BalanceChecker.brokerOwnsTicker, require_of (And.intro hbroker usdSymbol_ne), ok_bind, pure_bind]
    cases he : bc.entry o.senderCompId usdSymbol with
    | none => exact ⟨_, rfl⟩
    | some x =>
      simp only [Option.isSome_some, Bool.true_eq_false, if_false]
      cases htype : o.ordType with
      | limit =>
        obtain ⟨p, hp⟩ := Option.isSome_iff_exists.1 (hshape htype)
        simp only [hp, orFail_some, ok_bind]
        exact reserve_total usdSymbol_ne he (hread x he)
      | market =>
        cases cost with
        | none => exact ⟨_, rfl⟩
        | some c => exact reserve_total usdSymbol_ne he (hread x he)
  | ask =>
    rw [hside] at hread
    simp only [BalanceChecker.brokerOwnsTicker, require_of (And.intro hbroker hread.1), ok_bind, pure_bind]
    cases he : bc.entry o.senderCompId o.symbol with
    | none => exact ⟨_, rfl⟩
    | some x =>
      simp only [Option.isSome_some, Bool.true_eq_false, if_false]
      exact reserve_total hread.1 he (hread.2 x he)

/-- Where validation comes to an end, the balance could be read. -/
private theorem readable_of_validateNewOrder {bc : BalanceChecker} {cost : Option Int} {o : NewOrderSingle}
    {r : String × BalanceChecker} (hcost : cost ≠ none) (h : validateNewOrder cfg A bc cost o = .ok r)
    (hb : ReachesBalance cfg bc o) : Readable bc o := by
  unfold validateNewOrder at h
  rw [if_neg (not_not.2 hb.symbol_active), if_neg (price_checked hb.price_pos), if_neg (not_le.2 hb.qty_pos),
    if_neg (by rw [hb.broker]; decide)] at h
  -- a reservation reads the balance, whose postcondition is that it is not negative
  have hres : ∀ {u ticker insufficient delta}, reserve A bc u ticker delta insufficient = .ok r →
      ∀ x, bc.entry u ticker = some x → 0 ≤ x := by
    intro u ticker insufficient delta hr x hx
    rw [reserve, bind_eq_ok] at hr
    obtain ⟨s, hs, -⟩ := hr
    obtain ⟨y, hy, hy0, -⟩ := BalanceChecker.hasSufficientBalance_ok hs
    rw [hx] at hy
    cases hy
    exact hy0
  unfold Readable
  cases hside : o.side with
  | bid =>
    simp only [hside, bind_eq_ok] at h
    obtain ⟨owns, hown, h⟩ := h
    simp only [BalanceChecker.brokerOwnsTicker, bind_eq_ok] at hown
    obtain ⟨-, -, hown⟩ := hown
    cases hown
    intro x hx
    rw [hx] at h
    simp only [Option.isSome_some, Bool.true_eq_false, if_false] at h
    cases htype : o.ordType with
    | limit =>
      simp only [htype, bind_eq_ok] at h
      obtain ⟨p, -, h⟩ := h
      exact hres h x hx
    | market =>
      obtain ⟨c, rfl⟩ := Option.ne_none_iff_exists'.1 hcost
      simp only [htype] at h
      exact hres h x hx
  | ask =>
    simp only [hside, bind_eq_ok] at h
    obtain ⟨owns, hown, h⟩ := h
    simp only [BalanceChecker.brokerOwnsTicker, bind_eq_ok, require_eq_ok] at hown
    obtain ⟨-, ⟨-, hne⟩, hown⟩ := hown
    cases hown
    refine ⟨hne, fun x hx => ?_⟩
    rw [hx] at h
    simp only [Option.isSome_some, Bool.true_eq_false, if_false] at h
    exact hres h x hx

/-! ### Reports -/

variable {gw : Int} {ids : Nat → String} {om : OrderManager}

private theorem finishRequest_newOrder_error {o : NewOrderSingle} {id : Int} (hid : o.orderId = some id)
    (err : String) :
    OneReport gw o.senderCompId (finishRequest cfg A gw ids om (.newOrderSingle o) (.error err)) := by
  simp only [finishRequest, forwardAndReply, generateRejectionReportContainer, updateDatabase, hid, orFail_some,
    ok_bind, require]
  exact ⟨_, _, _, rfl, rfl, rfl⟩

theorem finishRequest_newOrder_total {o : NewOrderSingle} {id : Int} (hid : o.orderId = some id) {cost : Option Int}
    (h : ∃ r, validateNewOrder cfg A om.balanceChecker cost o = .ok r) :
    OneReport gw o.senderCompId (finishRequest cfg A gw ids om (.newOrderSingle o) (.ok cost)) := by
  obtain ⟨⟨verdict, bc⟩, hr⟩ := h
  by_cases hv : verdict = "ok"
  · subst hv
    simp only [finishRequest, validateContainer, hr, forwardAndReply, generateSuccessReportContainer,
      updateDatabase, hid, orFail_some, ok_bind, require]
    exact ⟨_, _, _, rfl, rfl, rfl⟩
  · simp only [finishRequest, validateContainer, hr, forwardAndReply, generateRejectionReportContainer,
      updateDatabase, hid, orFail_some, ok_bind, require, hv]
    exact ⟨_, _, _, rfl, rfl, rfl⟩

/-- A cancellation that is rejected because of its user. -/
private theorem finishRequest_cancel_error {c : CancelOrderRequest} {err : String} :
    OneReport gw c.senderCompId (finishRequest cfg A gw ids om (.cancelOrderRequest c) (.error err)) ↔
      ∀ id, c.orderId = some id → om.orderInfoMap id ≠ none := by
  simp only [finishRequest, forwardAndReply, generateRejectionReportContainer, updateDatabase, require]
  cases hid : c.orderId with
  | none => exact ⟨fun _ _ h => (by cases h), fun _ => ⟨_, _, _, rfl, rfl, rfl⟩⟩
  | some id =>
    cases hinfo : om.orderInfoMap id with
    | none =>
      constructor
      · rintro ⟨_, _, _, h, -⟩
        simp [hinfo] at h
      · intro h
        exact absurd hinfo (h id rfl)
    | some info =>
      refine ⟨fun _ id' h => by cases h; simp [hinfo], fun _ => ?_⟩
      simp only [hinfo]
      exact ⟨_, _, _, rfl, rfl, rfl⟩

/-- A cancellation of a known user. -/
private theorem finishRequest_cancel_total {c : CancelOrderRequest} {cost : Option Int} :
    OneReport gw c.senderCompId (finishRequest cfg A gw ids om (.cancelOrderRequest c) (.ok cost)) ↔
      ∀ id, c.orderId = some id → om.orderInfoMap id ≠ none := by
  cases hid : c.orderId with
  | none =>
    simp only [finishRequest, validateContainer, forwardAndReply, generateRejectionReportContainer, updateDatabase,
      require, hid]
    exact ⟨fun _ _ h => (by cases h), fun _ => ⟨_, _, _, rfl, rfl, rfl⟩⟩
  | some id =>
    simp only [finishRequest, validateContainer, forwardAndReply, generateSuccessReportContainer, updateDatabase,
      require, hid]
    cases hinfo : om.orderInfoMap id with
    | none =>
      constructor
      · rintro ⟨_, _, _, h, -⟩
        simp [hinfo] at h
      · intro h
        exact absurd hinfo (h id rfl)
    | some info =>
      refine ⟨fun _ id' h => by cases h; simp [hinfo], fun _ => ?_⟩
      simp only [orFail_some, ok_bind, hinfo]
      exact ⟨_, _, _, rfl, rfl, rfl⟩

/-! ### The theorem -/

private theorem canServe_of_registered {m : Manager} (hm : m.Ok cfg A) {c : CancelOrderRequest} {userId id : Int}
    (hid : m.om.orderIdMap.right (transformedClOrdId A c.origClOrdId userId) = some id) :
    m.om.orderInfoMap id ≠ none := by
  have hleft := (m.om.orderIdMap.agree _ _).2 hid
  rw [Ne, ← hm.domain, hleft]
  exact Option.some_ne_none _

/-- The checks do not look at the id. -/
private theorem reachesBalance_assigned {bc : BalanceChecker} {o : NewOrderSingle} {id : Int} :
    ReachesBalance cfg bc (o.assigned id) ↔ ReachesBalance cfg bc o :=
  ⟨fun h => ⟨h.1, h.2, h.3, h.4⟩, fun h => ⟨h.1, h.2, h.3, h.4⟩⟩

/-- The cost plays no part for an order that is not a market bid. -/
private theorem validateNewOrder_cost_eq {bc : BalanceChecker} {o : NewOrderSingle}
    (hm : ¬ (o.ordType = .market ∧ o.side = .bid)) (cost cost' : Option Int) :
    validateNewOrder cfg A bc cost o = validateNewOrder cfg A bc cost' o := by
  unfold validateNewOrder
  cases hside : o.side with
  | ask => rfl
  | bid =>
    cases htype : o.ordType with
    | limit => rfl
    | market => exact absurd ⟨htype, hside⟩ hm

private theorem canServe_newOrder {o : NewOrderSingle} (hs : Served cfg A om (.newOrderSingle o)) :
    CanServe cfg A om (.newOrderSingle o) := by
  intro userId hu hk hrb
  obtain ⟨om', out, report, h, -, -⟩ := hs true 0 (fun _ => "") (some 0)
  -- what is validated is the order with its id
  let id := A.int (om.latestAssignedOrderId + 1)
  replace hrb : ReachesBalance cfg om.balanceChecker (o.assigned id) := reachesBalance_assigned.2 hrb
  show Readable om.balanceChecker (o.assigned id)
  simp only [serveRequest, handleRequest, preprocessContainer, preprocessNewOrder, hu, hk, ok_bind, if_true] at h
  by_cases hm : o.ordType = .market ∧ o.side = .bid
  · simp only [if_pos hm, completeRequest, receiveFillCost, finishRequest, validateContainer, bind_eq_ok] at h
    obtain ⟨⟨om₂, outcome⟩, h1, h⟩ := h
    cases h1
    simp only [bind_eq_ok] at h
    obtain ⟨cost, hcost, r, hval, -⟩ := h
    cases hcost
    exact readable_of_validateNewOrder (Option.some_ne_none _) hval hrb
  · simp only [if_neg hm, finishRequest, validateContainer, bind_eq_ok] at h
    obtain ⟨⟨om₂, outcome⟩, ⟨⟨om₃, out₃⟩, ⟨r, hval, -⟩, -⟩, -⟩ := h
    exact readable_of_validateNewOrder (Option.some_ne_none 0)
      ((validateNewOrder_cost_eq (o := o.assigned id) hm _ _).trans hval) hrb

private theorem served_newOrder {o : NewOrderSingle} (hshape : o.ordType = .limit → o.price.isSome = true)
    (hc : CanServe cfg A om (.newOrderSingle o)) : Served cfg A om (.newOrderSingle o) := by
  intro sent gw ids cost
  let id := A.int (om.latestAssignedOrderId + 1)
  show OneReport gw o.senderCompId _
  simp only [serveRequest, handleRequest, preprocessContainer, preprocessNewOrder, ok_bind]
  have hdone : ∀ {om₁ : OrderManager} {r : Except String (Option Int)},
      OneReport gw o.senderCompId (finishRequest cfg A gw ids om₁ (.newOrderSingle (o.assigned id)) r) →
      OneReport gw o.senderCompId (do
        let x ← (do
          let x ← finishRequest cfg A gw ids om₁ (.newOrderSingle (o.assigned id)) r
          pure (x.1, Outcome.done x.2))
        match x.2 with
        | .done out => pure (x.1, out)
        | .waiting newOrder _ => completeRequest cfg A gw ids x.1 newOrder (.fillCostResponse ⟨cost⟩)) := by
    rintro om₁ r ⟨om₂, out, report, h, h1, h2⟩
    exact ⟨om₂, out, report, by rw [h]; rfl, h1, h2⟩
  cases hu : cfg.usernameUserIdMap o.senderCompId with
  | none => exact hdone (finishRequest_newOrder_error rfl _)
  | some userId =>
    simp only
    by_cases hk : om.orderIdMap.right (transformedClOrdId A o.clOrdId userId) = none
    · have hval : ∀ {om₁ : OrderManager} (cost), om₁.balanceChecker = om.balanceChecker →
          ∃ r, validateNewOrder cfg A om₁.balanceChecker cost (o.assigned id) = .ok r := by
        intro om₁ cost hbc
        rw [hbc]
        exact validateNewOrder_total hshape fun h => hc userId hu hk (reachesBalance_assigned.1 h)
      simp only [if_pos hk]
      by_cases hm : o.ordType = .market ∧ o.side = .bid
      · simp only [if_pos hm]
        cases sent with
        | true =>
          simp only [if_true, completeRequest, receiveFillCost, ok_bind]
          exact finishRequest_newOrder_total rfl (hval cost rfl)
        | false => exact hdone (finishRequest_newOrder_error rfl _)
      · simp only [if_neg hm]
        exact hdone (finishRequest_newOrder_total rfl (hval none rfl))
    · simp only [if_neg hk]
      exact hdone (finishRequest_newOrder_error rfl _)

/-- A new order is served exactly when the balance it reads can be read. -/
private theorem served_newOrder_iff {o : NewOrderSingle} (hshape : o.ordType = .limit ↔ o.price.isSome = true) :
    Served cfg A om (.newOrderSingle o) ↔ CanServe cfg A om (.newOrderSingle o) :=
  ⟨canServe_newOrder, served_newOrder hshape.1⟩

/-- A cancellation is served exactly when the order id it ends up with is registered. -/
private theorem served_cancel_iff {m : Manager} (hm : m.Ok cfg A) {c : CancelOrderRequest} :
    Served cfg A m.om (.cancelOrderRequest c) ↔ CanServe cfg A m.om (.cancelOrderRequest c) := by
  have hserve : ∀ (om₁ : OrderManager) (c' : CancelOrderRequest) (r : Except String (Option Int)) (gw ids cost),
      OneReport gw c.senderCompId (do
        let x ← (do
          let x ← finishRequest cfg A gw ids om₁ (.cancelOrderRequest c') r
          pure (x.1, Outcome.done x.2))
        match x.2 with
        | .done out => pure (x.1, out)
        | .waiting newOrder _ => completeRequest cfg A gw ids x.1 newOrder (.fillCostResponse ⟨cost⟩)) ↔
      OneReport gw c.senderCompId (finishRequest cfg A gw ids om₁ (.cancelOrderRequest c') r) := by
    intro om₁ c' r gw ids cost
    cases hf : finishRequest cfg A gw ids om₁ (.cancelOrderRequest c') r with
    | error e => exact Iff.rfl
    | ok x => exact Iff.rfl
  unfold Served
  simp only [serveRequest, handleRequest, preprocessContainer, ok_bind, Container.senderCompId, CanServe]
  cases hu : cfg.usernameUserIdMap c.senderCompId with
  | none =>
    simp only [preprocessCancelRequest, hu, hserve, finishRequest_cancel_error]
    simp
  | some userId =>
    cases hk : m.om.orderIdMap.right (transformedClOrdId A c.origClOrdId userId) with
    | some id =>
      have hreg := canServe_of_registered hm hk
      simp only [preprocessCancelRequest, hu, hk, hserve]
      have hfin : ∀ gw ids, OneReport gw c.senderCompId
          (finishRequest cfg A gw ids m.om (.cancelOrderRequest { c with orderId := some id }) (.ok none)) := by
        intro gw ids
        refine finishRequest_cancel_total.2 fun id' h => ?_
        cases h
        exact hreg
      exact ⟨fun _ => Or.inl ⟨userId, rfl, by rw [hk]; simp⟩, fun _ _ gw ids _ => hfin gw ids⟩
    | none =>
      simp only [preprocessCancelRequest, hu, hk, hserve, finishRequest_cancel_total]
      simp [hk]

end Elsa
