import Elsa.System.Agreement

/-!
# The stream of execution reports

The exchange with the execution reports that the order manager produces: replies to requests, and the reports that
`return_execution_report` makes for the responses of the engine.

The reports that were returned follow the responses that were processed (`Narrates`): each fill report carries the
filled quantity at its moment, and nothing is filled after a cancellation.  A cancelled order was not filled
completely, because the cancellation took something out of the book (`Cancellable`).
-/

namespace Elsa

open Base LimitOrderBook

inductive Origin
  | reply
  | returned
deriving DecidableEq, Repr

/-- A report, with where it comes from and the gateway it goes to. -/
structure ReportEntry where
  origin : Origin
  gatewayId : Int
  report : ExecutionReport
deriving DecidableEq, Repr

/-- A report about a fill. -/
def ExecutionReport.IsFill (r : ExecutionReport) : Prop :=
  r.ordStatus = .statusFilled ∨ r.ordStatus = .statusPartiallyFilled

instance (r : ExecutionReport) : Decidable r.IsFill := inferInstanceAs (Decidable (_ ∨ _))

/-- The report of a cancel response. -/
def ExecutionReport.IsCancelReport (r : ExecutionReport) : Prop :=
  r.ordStatus = .statusCanceled ∨ r.ordStatus = .statusRejected

section

variable (cfg : Config) (A : Arith)

/-- The reports that a step produces. -/
def Exchange.reports (s : Exchange) : Event → List ReportEntry
  | .request c gw ids =>
    match handleRequest cfg A true gw ids s.om c with
    | .ok (_, .done out) => out.reports.map fun r => ⟨.reply, r.1, r.2⟩
    | _ => []
  | .answer ids =>
    match s.waiting, s.answers with
    | some (o, gw), a :: _ =>
      match completeRequest cfg A gw ids s.om o a with
      | .ok (_, out) => out.reports.map fun r => ⟨.reply, r.1, r.2⟩
      | .error _ => []
    | _, _ => []
  | .matching _ => []
  | .response ids =>
    match s.responses with
    | c :: _ =>
      match handleResponse cfg A ids s.om c with
      | .ok (_, out) => out.reports.map fun r => ⟨.returned, r.1, r.2⟩
      | .error _ => []
    | [] => []

/-- An exchange and the reports so far. -/
structure Reporting where
  exchange : Exchange
  log : List ReportEntry

namespace Reporting

def start (balances : BalanceChecker) : Reporting := ⟨.start cfg balances, []⟩

def step (s : Reporting) (e : Event) : Option Reporting :=
  (s.exchange.step cfg A e).map fun x => ⟨x, s.log ++ s.exchange.reports cfg A e⟩

/-- The states that runs pass through, fed with requests of the gateway's shape. -/
abbrev Reachable (balances : BalanceChecker) : Reporting → Prop :=
  Reach (step cfg A) (fun _ e => Exchange.Fed e) (start cfg balances)

end Reporting

end

/-- The reports of `return_execution_report`. -/
def returnedReports (log : List ReportEntry) : List ExecutionReport :=
  (log.filter fun e => e.origin = .returned).map ReportEntry.report

/-- Those of them that are about one order. -/
def reportsFor (log : List ReportEntry) (id : Int) : List ExecutionReport :=
  (returnedReports log).filter fun r => r.orderId = id

/-- What a client can rely on in the reports about an order. -/
structure ConsistentReports (accepted : List NewOrderSingle) (id : Int) (reports : List ExecutionReport) : Prop where
  own : ∀ r ∈ reports, r.IsFill → ∃ o ∈ accepted, o.id = id ∧ r.side = o.side ∧ r.leavesQty + r.cumQty = o.orderQty
  increasing : (reports.filter fun r => r.IsFill).Pairwise fun r r' => r.cumQty < r'.cumQty
  filled_iff : ∀ r ∈ reports, r.ordStatus = .statusFilled ↔
    r.leavesQty = 0 ∧ r.ordStatus ≠ .statusCanceled ∧ r.ordStatus ≠ .statusRejected
  cancel_leaves : ∀ r ∈ reports, r.IsCancelReport → r.leavesQty = 0
  filled_once : (reports.filter fun r => r.ordStatus = .statusFilled).length ≤ 1
  final : reports.Pairwise fun r r' => r.ordStatus = .statusFilled ∨ r.ordStatus = .statusCanceled → ¬ r'.IsFill
  not_both : ¬ ((∃ r ∈ reports, r.ordStatus = .statusFilled) ∧ ∃ r ∈ reports, r.ordStatus = .statusCanceled)

/-! ### Reports and processed responses -/

/-- The returned reports, compared with the responses that were processed. -/
structure Narrates (accepted : List NewOrderSingle) (processed : List Container) (reports : List ExecutionReport) :
    Prop where
  kinds : ∀ r ∈ reports, r.IsFill ∨ (r.IsCancelReport ∧ r.leavesQty = 0)
  fills : ∀ r ∈ reports, r.IsFill → (∃ o ∈ accepted, o.id = r.orderId ∧ r.side = o.side ∧
      r.leavesQty + r.cumQty = o.orderQty) ∧ (r.ordStatus = .statusFilled ↔ r.leavesQty = 0) ∧
    r.cumQty ≤ amountOf processed r.orderId
  increasing : reports.Pairwise fun r r' => r.orderId = r'.orderId → r.IsFill → r'.IsFill → r.cumQty < r'.cumQty
  cancels : ∀ r ∈ reports, r.ordStatus = .statusCanceled → ∃ c ∈ processed, c.closed? = some r.orderId
  final : reports.Pairwise fun r r' => r.orderId = r'.orderId → r.ordStatus = .statusCanceled → ¬ r'.IsFill

/-- A fill report for the response `c` to an order that was open before it. -/
structure IsNewFill (accepted : List NewOrderSingle) (processed : List Container) (c : Container)
    (r : ExecutionReport) :
    Prop where
  own : ∃ o ∈ accepted, o.id = r.orderId ∧ r.side = o.side ∧ r.leavesQty + r.cumQty = o.orderQty
  filled_iff : r.ordStatus = .statusFilled ↔ r.leavesQty = 0
  cum_eq : r.cumQty = amountOf processed r.orderId + c.amountFor r.orderId
  amount_pos : 0 < c.amountFor r.orderId
  still_open : ∀ d ∈ processed, d.closed? ≠ some r.orderId

namespace Narrates

variable {accepted accepted' : List NewOrderSingle} {processed : List Container} {reports : List ExecutionReport}

theorem nil : Narrates [] [] [] :=
  ⟨fun _ h => (by cases h), fun _ h => (by cases h), List.Pairwise.nil, fun _ h => (by cases h), List.Pairwise.nil⟩

theorem mono (h : Narrates accepted processed reports) (hsub : ∀ o ∈ accepted, o ∈ accepted') :
    Narrates accepted' processed reports := by
  refine ⟨h.kinds, fun r hr hf => ?_, h.increasing, h.cancels, h.final⟩
  obtain ⟨⟨o, ho, hrest⟩, h2⟩ := h.fills r hr hf
  exact ⟨⟨o, hsub o ho, hrest⟩, h2⟩

/-- The reports for one more response. -/
theorem process (h : Narrates accepted processed reports) {c : Container} {new : List ExecutionReport}
    (hamount : ∀ id, 0 ≤ c.amountFor id) (hdistinct : new.Pairwise fun r r' => r.orderId ≠ r'.orderId)
    (hkinds : ∀ r ∈ new, r.IsFill ∨ (r.IsCancelReport ∧ r.leavesQty = 0))
    (hfills : ∀ r ∈ new, r.IsFill → IsNewFill accepted processed c r)
    (hcancels : ∀ r ∈ new, r.ordStatus = .statusCanceled → c.closed? = some r.orderId) :
    Narrates accepted (processed ++ [c]) (reports ++ new) := by
  have happend : ∀ id, amountOf (processed ++ [c]) id = amountOf processed id + c.amountFor id := by
    intro id
    rw [amountOf_append, amountOf_cons, amountOf_nil, Int.add_zero]
  refine ⟨fun r hr => (List.mem_append.1 hr).elim (h.kinds r) (hkinds r), fun r hr hf => ?_, ?_, fun r hr hc => ?_,
    ?_⟩
  · rw [happend]
    rcases List.mem_append.1 hr with hr | hr
    · obtain ⟨h1, h2, h3⟩ := h.fills r hr hf
      have := hamount r.orderId
      exact ⟨h1, h2, by omega⟩
    · have hnew := hfills r hr hf
      exact ⟨hnew.own, hnew.filled_iff, hnew.cum_eq.le⟩
  · refine List.pairwise_append.2 ⟨h.increasing, hdistinct.imp fun hne heq => absurd heq hne, ?_⟩
    intro r hr r' hr' heq hf hf'
    obtain ⟨-, -, h3⟩ := h.fills r hr hf
    have h4 := (hfills r' hr' hf').cum_eq
    have h5 := (hfills r' hr' hf').amount_pos
    rw [heq] at h3
    omega
  · rcases List.mem_append.1 hr with hr | hr
    · obtain ⟨d, hd, hcl⟩ := h.cancels r hr hc
      exact ⟨d, List.mem_append_left _ hd, hcl⟩
    · exact ⟨c, List.mem_append_right _ (List.mem_singleton.2 rfl), hcancels r hr hc⟩
  · refine List.pairwise_append.2 ⟨h.final, hdistinct.imp fun hne heq => absurd heq hne, ?_⟩
    intro r hr r' hr' heq hc hf'
    obtain ⟨d, hd, hcl⟩ := h.cancels r hr hc
    exact (hfills r' hr' hf').still_open d hd (heq ▸ hcl)

end Narrates

/-! ### What `return_execution_report` makes -/

section

variable {cfg : Config} {om : OrderManager} {ids : Nat → String}

/-- A report about an order of a trade, as the entry of the order has it. -/
structure ReportsEntry (om : OrderManager) (id : Int) (side : Side) (r : ExecutionReport) (info : OrderInfo) :
    Prop where
  entry : om.orderInfoMap id = some info
  id_eq : r.orderId = id
  side_eq : r.side = side
  leaves_eq : r.leavesQty = info.leavesQty
  cum_eq : r.cumQty = info.cumQty
  status_eq : r.ordStatus = if info.leavesQty = 0 then .statusFilled else .statusPartiallyFilled

private theorem generateMatchedOrderReport_ok {t : TradeContainer} {target : String} {id : Int} {side : Side}
    {execId : String} {p : Int × ExecutionReport}
    (h : generateMatchedOrderReport cfg om t target id side execId = .ok p) :
    ∃ info, ReportsEntry om id side p.2 info := by
  simp only [generateMatchedOrderReport, bind_eq_ok, orFail_eq_ok] at h
  obtain ⟨key, -, info, hinfo, h⟩ := h
  cases h
  exact ⟨info, hinfo, rfl, rfl, rfl, rfl, rfl⟩

namespace ReportsEntry

variable {id : Int} {side : Side} {r : ExecutionReport} {info : OrderInfo}

private theorem isFill (h : ReportsEntry om id side r info) : r.IsFill := by
  unfold ExecutionReport.IsFill
  rw [h.status_eq]
  split <;> simp

private theorem not_canceled (h : ReportsEntry om id side r info) : r.ordStatus ≠ .statusCanceled := by
  rw [h.status_eq]
  split <;> decide

private theorem filled_iff (h : ReportsEntry om id side r info) : r.ordStatus = .statusFilled ↔ r.leavesQty = 0 := by
  rw [h.status_eq, h.leaves_eq]
  split
  · next h0 => exact iff_of_true rfl h0
  · next h0 => exact iff_of_false (by decide) h0

end ReportsEntry

private theorem returnExecutionReport_trade {t : TradeContainer} {reports : List (Int × ExecutionReport)}
    (h : returnExecutionReport cfg om ids (.trade t) = .ok reports) :
    ∃ taker maker, reports = [taker, maker] ∧
      generateMatchedOrderReport cfg om t t.takerId t.takerOrderId (if t.isTakerBuyer then .bid else .ask) (ids 0) =
        .ok taker ∧
      generateMatchedOrderReport cfg om t t.makerId t.makerOrderId (if t.isTakerBuyer then .ask else .bid) (ids 1) =
        .ok maker := by
  simp only [returnExecutionReport, generateMatchedOrderReportContainers, bind_eq_ok] at h
  obtain ⟨taker, htaker, maker, hmaker, h⟩ := h
  cases h
  exact ⟨taker, maker, rfl, htaker, hmaker⟩

private theorem returnExecutionReport_cancel {r : CancelOrderResponse} {reports : List (Int × ExecutionReport)}
    (h : returnExecutionReport cfg om ids (.cancelOrderResponse r) = .ok reports) :
    ∃ p, reports = [p] ∧ p.2.orderId = r.orderId ∧ p.2.leavesQty = 0 ∧
      p.2.ordStatus = if r.success then .statusCanceled else .statusRejected := by
  simp only [returnExecutionReport, generateCancelResponseReportContainer, bind_eq_ok, orFail_eq_ok] at h
  obtain ⟨p, ⟨info, -, key, -, hp⟩, h⟩ := h
  cases h
  cases hp
  exact ⟨_, rfl, rfl, rfl, rfl⟩

end

/-! ### Cancelled orders -/

namespace Exchange

variable {cfg : Config} {A : Arith} {s s' : Exchange}

/-- An order whose cancellation is reported was not filled completely. -/
def Cancellable (s : Exchange) : Prop :=
  ∀ c ∈ s.stream, ∀ id, c.closed? = some id → ∀ o ∈ s.history.accepted, o.id = id → amountOf s.stream id < o.orderQty

/-- New responses do not matter for orders that were closed before. -/
theorem Cancellable.old (h : s.Cancellable) (ha : s.Agrees cfg) (ha' : s'.Agrees cfg) {responses : List Container}
    (hstream : s'.stream = s.stream ++ responses) (hsub : ∀ o ∈ s.history.accepted, o ∈ s'.history.accepted)
    {c : Container} (hc : c ∈ s.stream) {id : Int} (hcl : c.closed? = some id) {o : NewOrderSingle}
    (ho : o ∈ s'.history.accepted) (hid : o.id = id) : amountOf s'.stream id < o.orderQty := by
  have hclosing := ha'.placed.closing
  rw [hstream, List.pairwise_append] at hclosing
  have hzero : amountOf responses id = 0 := amountOf_eq_zero fun d hd => hclosing.2.2 c hc d hd id hcl
  obtain ⟨-, -, o', ho', hid', -⟩ := ha.placed.closed c hc id hcl
  have heq : o = o' := ha'.placed.eq_of_id ho (hsub o' ho') (hid.trans hid'.symm)
  rw [hstream, amountOf_append, hzero, Int.add_zero, heq]
  exact h c hc id hcl o' ho' hid'

theorem Cancellable.move (h : s.Cancellable) (ha : s.Agrees cfg) (ha' : s'.Agrees cfg) {e : Event}
    (hm : Move cfg A s e s') : s'.Cancellable := by
  by_cases he : ∃ draw, e = .matching draw
  · -- the engine appends responses; one of them may close an order
    have happend : ∀ {responses}, s'.stream = s.stream ++ responses → s'.history = s.history →
        (∀ c ∈ responses, ∀ id, c.closed? = some id → ∀ o ∈ s.history.accepted, o.id = id →
          amountOf s'.stream id < o.orderQty) → s'.Cancellable := by
      intro responses hstream hhist hnew c hc id hcl o ho hid
      have hc' := hc
      rw [hstream] at hc'
      rcases List.mem_append.1 hc' with hc' | hc'
      · exact h.old ha ha' hstream (fun o ho => hhist ▸ ho) hc' hcl ho hid
      · exact hnew c hc' id hcl o (hhist ▸ ho) hid
    cases hm with
    | matched o id b b' requests draw hr hid hb hfree ht hq hmt hok =>
      refine happend (List.append_assoc _ _ _).symm rfl fun c hc id hcl => ?_
      obtain ⟨t, -, rfl⟩ := List.mem_map.1 hc
      cases hcl
    | cancelled c id b b' requests draw hr hid hb hix hc hok =>
      refine happend (List.append_assoc _ _ _).symm rfl fun d hd id' hcl o ho hoid => ?_
      rw [List.mem_singleton.1 hd] at hcl
      cases hcl
      obtain ⟨a, ha₁⟩ := Option.ne_none_iff_exists'.1 hix
      have hbok := (ha.placed.engine_ok.book_ok _ b hb).1
      obtain ⟨n, hn, hnid, -⟩ := hbok.exists_node ha₁
      obtain ⟨o', ho', hro⟩ := ha.placed.resting _ b hb n hn
      have heq : o' = o := ha.placed.eq_of_id ho' ho (hro.id_eq.trans (hnid.trans hoid.symm))
      have hqty := ha.resting_qty hb hn ho' hro
      have hpos : 0 < n.order.quantity := by
        rcases List.mem_append.1 hn with hn | hn <;> exact (hbok.node_ok hn).1.quantity_pos
      have hsame : amountOf (s.stream ++ [.cancelOrderResponse ⟨id, c.clOrdId, true⟩]) id = amountOf s.stream id := by
        rw [amountOf_append]
        exact Int.add_zero _
      show amountOf (s.history.processed ++ (s.responses ++ [.cancelOrderResponse ⟨id, c.clOrdId, true⟩])) id <
          o.orderQty
      rw [← List.append_assoc, ← stream, hsame, ← heq, ← hoid, ← heq]
      omega
    | cancelMissed c id requests draw hr hid =>
      refine happend (List.append_assoc _ _ _).symm rfl fun d hd id' hcl => ?_
      rw [List.mem_singleton.1 hd] at hcl
      cases hcl
    | quoted q b cost requests draw hr hb hcost => exact h
    | _ =>
      obtain ⟨draw, he⟩ := he
      cases he
  · have he' : ∀ draw, e ≠ .matching draw := fun draw hd => he ⟨draw, hd⟩
    obtain ⟨hstream, hsub⟩ := hm.stream_eq he'
    intro c hc id hcl o ho hid
    rw [hstream] at hc
    exact h.old ha ha' (by rw [hstream, List.append_nil]) hsub hc hcl ho hid

end Exchange

/-! ### Runs -/

private theorem returnedReports_append (log log' : List ReportEntry) :
    returnedReports (log ++ log') = returnedReports log ++ returnedReports log' := by
  simp [returnedReports]

private theorem returnedReports_replies (rs : List (Int × ExecutionReport)) :
    returnedReports (rs.map fun r => ⟨.reply, r.1, r.2⟩) = [] := by
  induction rs with
  | nil => rfl
  | cons r rs ih => exact ih

private theorem returnedReports_returned (rs : List (Int × ExecutionReport)) :
    returnedReports (rs.map fun r => ⟨.returned, r.1, r.2⟩) = rs.map Prod.snd := by
  induction rs with
  | nil => rfl
  | cons r rs ih => exact congrArg (r.2 :: ·) ih

namespace Reporting

variable {cfg : Config} {A : Arith} {s s' : Reporting}

/-- The invariant of the runs. -/
structure Faithful (cfg : Config) (s : Reporting) : Prop where
  agrees : s.exchange.Agrees cfg
  cancellable : s.exchange.Cancellable
  narrates : Narrates s.exchange.history.accepted s.exchange.history.processed (returnedReports s.log)

/-- A step that processes no response returns no report. -/
private theorem returnedReports_other {x : Exchange} {e : Event} (he : ∀ ids, e ≠ .response ids) :
    returnedReports (x.reports cfg A e) = [] := by
  cases e with
  | request c gw ids =>
    simp only [Exchange.reports]
    split
    · exact returnedReports_replies _
    · rfl
  | answer ids =>
    simp only [Exchange.reports]
    split
    · split
      · exact returnedReports_replies _
      · rfl
    · rfl
  | matching draw => rfl
  | response ids => exact absurd rfl (he ids)

private theorem amountFor_trade (t : TradeContainer) (id : Int) : (Container.trade t).amountFor id =
    (if t.takerOrderId = id then t.quantity else 0) + (if t.makerOrderId = id then t.quantity else 0) := rfl

/-- The report about an order of a trade, made after the trade was booked. -/
private theorem Faithful.isNewFill (h : s.Faithful cfg) {x' : Exchange} (ha' : x'.Agrees cfg) {t : TradeContainer}
    {responses : List Container} (hr : s.exchange.responses = .trade t :: responses)
    (hacc : x'.history.accepted = s.exchange.history.accepted)
    (hproc : x'.history.processed = s.exchange.history.processed ++ [.trade t]) {id : Int} {side : Side}
    {r : ExecutionReport} {info : OrderInfo} (hrep : ReportsEntry x'.om id side r info) {o : NewOrderSingle}
    (ho : o ∈ s.exchange.history.accepted) (hoid : o.id = id) (hside : side = o.side) (hpos : 0 < t.quantity)
    (htouch : t.takerOrderId = id ∨ t.makerOrderId = id) :
    IsNewFill x'.history.accepted s.exchange.history.processed (.trade t) r := by
  rw [← hacc] at ho
  rw [← hrep.id_eq] at hoid htouch
  obtain ⟨info', hinfo', hrec⟩ := ha'.recorded o ho
  have hinfo := hrep.entry
  rw [← hrep.id_eq, ← hoid, hinfo'] at hinfo
  cases hinfo
  have h1 := hrec.leaves_eq
  have h2 := hrec.cum_eq
  have h3 := hrep.leaves_eq
  have h4 := hrep.cum_eq
  rw [hproc, amountOf_append, amountOf_cons, amountOf_nil, Int.add_zero, hoid] at h1 h2
  refine ⟨⟨o, ho, hoid, hrep.side_eq.trans hside, by omega⟩, hrep.filled_iff, by omega, ?_, fun d hd hcl => ?_⟩
  · rw [amountFor_trade]
    rcases htouch with hto | hto
    · rw [if_pos hto]
      split <;> omega
    · rw [if_pos hto]
      split <;> omega
  · have hclosing := h.agrees.placed.closing
    rw [Exchange.stream, hr, List.pairwise_append] at hclosing
    exact hclosing.2.2 d hd (.trade t) List.mem_cons_self r.orderId hcl (Or.inr ⟨t, rfl, htouch⟩)

/-- The reports for a trade. -/
theorem Faithful.trade (h : s.Faithful cfg) {x' : Exchange} (ha' : x'.Agrees cfg) {t : TradeContainer}
    {responses : List Container} (hr : s.exchange.responses = .trade t :: responses)
    (hacc : x'.history.accepted = s.exchange.history.accepted)
    (hproc : x'.history.processed = s.exchange.history.processed ++ [.trade t]) {ids : Nat → String}
    {reports : List (Int × ExecutionReport)} (hrep : returnExecutionReport cfg x'.om ids (.trade t) = .ok reports) :
    Narrates x'.history.accepted x'.history.processed (returnedReports s.log ++ reports.map Prod.snd) := by
  obtain ⟨taker, htk, maker, hmk, hb⟩ := h.agrees.trade_between hr
  obtain ⟨p, p', rfl, hp, hp'⟩ := returnExecutionReport_trade hrep
  obtain ⟨info, hi⟩ := generateMatchedOrderReport_ok hp
  obtain ⟨info', hi'⟩ := generateMatchedOrderReport_ok hp'
  have hmem : ∀ r ∈ [p, p'].map Prod.snd, r = p.2 ∨ r = p'.2 := by simp
  have hmakerSide : (if t.isTakerBuyer then Side.ask else Side.bid) = maker.side := by
    rw [hb.maker_side, hb.taker_side]
    cases t.isTakerBuyer <;> rfl
  rw [hproc]
  refine Narrates.process (hacc ▸ h.narrates) (fun id => ?_) ?_ (fun r hr => ?_) (fun r hm _ => ?_) fun r hr hc => ?_
  · have := hb.quantity_pos
    rw [amountFor_trade]
    split <;> split <;> omega
  · refine List.Pairwise.cons (fun r hr => ?_) (List.pairwise_singleton _ _)
    rw [List.mem_singleton.1 hr, hi.id_eq, hi'.id_eq]
    exact hb.ids_ne
  · rcases hmem r hr with rfl | rfl
    · exact Or.inl hi.isFill
    · exact Or.inl hi'.isFill
  · rcases hmem r hm with rfl | rfl
    · exact h.isNewFill ha' hr hacc hproc hi htk hb.taker_id hb.taker_side.symm hb.quantity_pos (Or.inl rfl)
    · exact h.isNewFill ha' hr hacc hproc hi' hmk hb.maker_id hmakerSide hb.quantity_pos (Or.inr rfl)
  · rcases hmem r hr with rfl | rfl
    · exact absurd hc hi.not_canceled
    · exact absurd hc hi'.not_canceled

/-- The report for the answer to a cancellation. -/
theorem Faithful.cancel (h : s.Faithful cfg) {om : OrderManager} {r : CancelOrderResponse} {ids : Nat → String}
    {reports : List (Int × ExecutionReport)}
    (hrep : returnExecutionReport cfg om ids (.cancelOrderResponse r) = .ok reports) :
    Narrates s.exchange.history.accepted (s.exchange.history.processed ++ [.cancelOrderResponse r])
      (returnedReports s.log ++ reports.map Prod.snd) := by
  obtain ⟨p, rfl, hid, hleaves, hstatus⟩ := returnExecutionReport_cancel hrep
  refine h.narrates.process (fun id => le_refl 0) (List.pairwise_singleton _ _) ?_ ?_ ?_
  · intro e he
    rw [List.mem_singleton.1 he]
    refine Or.inr ⟨?_, hleaves⟩
    unfold ExecutionReport.IsCancelReport
    rw [hstatus]
    split
    · exact Or.inl rfl
    · exact Or.inr rfl
  · intro e he hf
    rw [List.mem_singleton.1 he] at hf
    unfold ExecutionReport.IsFill at hf
    rw [hstatus] at hf
    cases hsuc : r.success <;> rw [hsuc] at hf <;> simp at hf
  · intro e he hc
    rw [List.mem_singleton.1 he, hstatus] at hc
    rw [List.mem_singleton.1 he, hid]
    obtain ⟨id, clOrdId, success⟩ := r
    cases success with
    | true => rfl
    | false => cases hc

theorem Faithful.step (h : s.Faithful cfg) {e : Event} (hfed : Exchange.Fed e)
    (hfit : s.exchange.CounterFits A e) (hs : s.step cfg A e = some s') : s'.Faithful cfg := by
  obtain ⟨x', hx, rfl⟩ := Option.map_eq_some_iff.1 hs
  have hm := h.agrees.move_of_step hfed hx
  have ha' := h.agrees.move hfit hm
  refine ⟨ha', h.cancellable.move h.agrees ha' hm, ?_⟩
  by_cases he : ∃ ids, e = .response ids
  · obtain ⟨ids, rfl⟩ := he
    obtain ⟨c, responses, om', out, hr, hh, rfl⟩ := Exchange.response_of_step hx
    obtain ⟨-, reports, database, hrep, -, hout⟩ := handleResponse_eq_ok_iff.1 hh
    have hreports : s.exchange.reports cfg A (.response ids) = reports.map fun r => ⟨.returned, r.1, r.2⟩ := by
      simp only [Exchange.reports, hr, hh, hout]
    rw [hreports, returnedReports_append, returnedReports_returned]
    rcases h.agrees.answered c (by rw [hr]; simp) with ⟨t, rfl⟩ | ⟨r, rfl, -⟩
    · exact h.trade ha' hr rfl rfl hrep
    · exact h.cancel hrep
  · have he' : ∀ ids, e ≠ .response ids := fun ids hi => he ⟨ids, hi⟩
    obtain ⟨hproc, hsub⟩ := hm.history_eq he'
    rw [returnedReports_append, returnedReports_other he', List.append_nil]
    show Narrates x'.history.accepted x'.history.processed (returnedReports s.log)
    rw [hproc]
    exact h.narrates.mono hsub

private theorem start_faithful (balances : BalanceChecker) : (start cfg balances).Faithful cfg :=
  ⟨Exchange.start_agrees balances, fun _ hc => (by cases hc), Narrates.nil⟩

private theorem faithful_of_reachable {balances : BalanceChecker} (h : Reachable cfg .exact balances s) :
    s.Faithful cfg :=
  h.invariant (start_faithful balances) fun s e _ hi hfed hs =>
    hi.step hfed (Exchange.counterFits_exact s.exchange e) hs

/-! ### The reports about one order -/

private theorem mem_reportsFor {log : List ReportEntry} {id : Int} {r : ExecutionReport} (h : r ∈ reportsFor log id) :
    r ∈ returnedReports log ∧ r.orderId = id :=
  ⟨List.mem_of_mem_filter h, of_decide_eq_true (List.mem_filter.1 h).2⟩

/-- What holds between reports about one order holds between the reports for an order. -/
private theorem pairwise_reportsFor {log : List ReportEntry} {R : ExecutionReport → ExecutionReport → Prop}
    (h : (returnedReports log).Pairwise fun r r' => r.orderId = r'.orderId → R r r') (id : Int) :
    (reportsFor log id).Pairwise R := by
  refine (h.sublist List.filter_sublist).imp_of_mem fun hr hr' himp => himp ?_
  rw [(mem_reportsFor hr).2, (mem_reportsFor hr').2]

namespace Faithful

variable {id : Int} {r : ExecutionReport}

/-- A filled report carries the whole quantity of the order. -/
theorem filled (h : s.Faithful cfg) (hr : r ∈ reportsFor s.log id) (hst : r.ordStatus = .statusFilled) :
    ∃ o ∈ s.exchange.history.accepted, o.id = id ∧ o.orderQty = r.cumQty ∧
      o.orderQty ≤ amountOf s.exchange.history.processed id := by
  obtain ⟨hmem, rfl⟩ := mem_reportsFor hr
  obtain ⟨⟨o, ho, hoid, -, hsum⟩, hiff, hle⟩ := h.narrates.fills r hmem (Or.inl hst)
  have h0 := hiff.1 hst
  exact ⟨o, ho, hoid, by omega, by omega⟩

/-- No report says more than was ordered. -/
private theorem cumQty_le (h : s.Faithful cfg) (hr : r ∈ reportsFor s.log id) (hfill : r.IsFill) {o : NewOrderSingle}
    (ho : o ∈ s.exchange.history.accepted) (hoid : o.id = id) : r.cumQty ≤ o.orderQty := by
  obtain ⟨hmem, rfl⟩ := mem_reportsFor hr
  have hle := (h.narrates.fills r hmem hfill).2.2
  have h1 := h.agrees.placed.amountOf_le ho
  have h2 := h.agrees.inFlight_nonneg o.id
  rw [Exchange.stream, amountOf_append] at h1
  rw [← hoid] at hle
  omega

private theorem increasing (h : s.Faithful cfg) (id : Int) :
    (reportsFor s.log id).Pairwise fun r r' => r.IsFill → r'.IsFill → r.cumQty < r'.cumQty :=
  pairwise_reportsFor h.narrates.increasing id

private theorem after_filled (h : s.Faithful cfg) (id : Int) :
    (reportsFor s.log id).Pairwise fun r r' => r.ordStatus = .statusFilled → ¬ r'.IsFill := by
  refine (h.increasing id).imp_of_mem fun {r r'} hr hr' himp hst hfill => ?_
  obtain ⟨o, ho, hoid, hq, -⟩ := h.filled hr hst
  have h1 := himp (Or.inl hst) hfill
  have h2 := h.cumQty_le hr' hfill ho hoid
  omega

private theorem filled_iff (h : s.Faithful cfg) (hr : r ∈ reportsFor s.log id) : r.ordStatus = .statusFilled ↔
    r.leavesQty = 0 ∧ r.ordStatus ≠ .statusCanceled ∧ r.ordStatus ≠ .statusRejected := by
  have hmem := (mem_reportsFor hr).1
  rcases h.narrates.kinds r hmem with hfill | ⟨hst | hst, -⟩
  · have hother : r.ordStatus ≠ .statusCanceled ∧ r.ordStatus ≠ .statusRejected := by
      rcases hfill with hst | hst <;> rw [hst] <;> decide
    rw [(h.narrates.fills r hmem hfill).2.1]
    exact (and_iff_left hother).symm
  · simp [hst]
  · simp [hst]

private theorem cancel_leaves (h : s.Faithful cfg) (hr : r ∈ reportsFor s.log id) (hcancel : r.IsCancelReport) :
    r.leavesQty = 0 := by
  rcases h.narrates.kinds r (mem_reportsFor hr).1 with hfill | ⟨-, hleaves⟩
  · rcases hfill with hst | hst
    · exact absurd hcancel (by rw [ExecutionReport.IsCancelReport, hst]; decide)
    · exact absurd hcancel (by rw [ExecutionReport.IsCancelReport, hst]; decide)
  · exact hleaves

/-- A cancelled order was not filled completely. -/
private theorem not_both (h : s.Faithful cfg) (id : Int) :
    ¬ ((∃ r ∈ reportsFor s.log id, r.ordStatus = .statusFilled) ∧
    ∃ r ∈ reportsFor s.log id, r.ordStatus = .statusCanceled) := by
  rintro ⟨⟨r, hr, hst⟩, r', hr', hst'⟩
  obtain ⟨o, ho, hoid, -, hle⟩ := h.filled hr hst
  obtain ⟨hmem', rfl⟩ := mem_reportsFor hr'
  obtain ⟨c, hc, hcl⟩ := h.narrates.cancels r' hmem' hst'
  have hlt := h.cancellable c (List.mem_append_left _ hc) r'.orderId hcl o ho hoid
  have hnn := h.agrees.inFlight_nonneg r'.orderId
  rw [Exchange.stream, amountOf_append] at hlt
  omega

end Faithful

/-- The reports about one order, in every run. -/
theorem consistentReports_of_reachable {balances : BalanceChecker} (h : Reachable cfg .exact balances s) (id : Int) :
    ConsistentReports s.exchange.history.accepted id (reportsFor s.log id) := by
  have hf := faithful_of_reachable h
  refine ⟨fun r hr hfill => ?_, ?_, fun r hr => hf.filled_iff hr, fun r hr => hf.cancel_leaves hr, ?_, ?_,
    hf.not_both id⟩
  · obtain ⟨hmem, rfl⟩ := mem_reportsFor hr
    exact (hf.narrates.fills r hmem hfill).1
  · refine ((hf.increasing id).sublist List.filter_sublist).imp_of_mem fun hr hr' himp => ?_
    exact himp (of_decide_eq_true (List.mem_filter.1 hr).2) (of_decide_eq_true (List.mem_filter.1 hr').2)
  · -- of two filled reports the second would be a fill after a filled one
    refine length_filter_le_one ((hf.after_filled id).imp fun himp hst hst' => ?_)
    exact himp (of_decide_eq_true hst) (Or.inl (of_decide_eq_true hst'))
  · have hcancel := pairwise_reportsFor hf.narrates.final id
    exact (hf.after_filled id).imp₂ (fun _ _ h1 h2 hor => hor.elim h1 h2) hcancel

/-- `ann` takes four of `bob`'s ten shares, and `bob` cancels the other six. -/
def sampleReporting : List Event :=
  Exchange.sampleTrading ++ [.response Exchange.noIds,
    .request (.cancelOrderRequest Exchange.sampleCancel) 0 Exchange.noIds, .matching Exchange.zeroStamps,
    .response Exchange.noIds]

theorem consistentReports_sampleReporting : ∃ s : Reporting, Reachable twoUsers .exact twoBalances s ∧
    (reportsFor s.log 0).map ExecutionReport.ordStatus = [.statusPartiallyFilled, .statusCanceled] ∧
    (reportsFor s.log 1).map ExecutionReport.ordStatus = [.statusFilled] ∧
    ConsistentReports s.exchange.history.accepted 0 (reportsFor s.log 0) ∧
    ConsistentReports s.exchange.history.accepted 1 (reportsFor s.log 1) := by
  have hrun : (execIf (step twoUsers .exact) (fun _ e => Exchange.Fed e)
      (start twoUsers twoBalances) sampleReporting).any (fun s =>
      decide ((reportsFor s.log 0).map ExecutionReport.ordStatus = [.statusPartiallyFilled, .statusCanceled] ∧
        (reportsFor s.log 1).map ExecutionReport.ordStatus = [.statusFilled])) = true := by decide +kernel
  obtain ⟨s, hreach, h⟩ := Reach.exists_of_execIf hrun
  obtain ⟨h0, h1⟩ := of_decide_eq_true h
  exact ⟨s, hreach, h0, h1, consistentReports_of_reachable hreach 0, consistentReports_of_reachable hreach 1⟩

/-- The report that confirms a cancellation has no open quantity, and is not a filled one. -/
theorem canceled_report_leaves_zero : ∃ s : Reporting, Reachable twoUsers .exact twoBalances s ∧
    ¬ ∀ r ∈ reportsFor s.log 0, r.ordStatus = .statusFilled ↔ r.leavesQty = 0 := by
  have hrun : (execIf (step twoUsers .exact) (fun _ e => Exchange.Fed e)
      (start twoUsers twoBalances) sampleReporting).any (fun s : Reporting =>
      decide (¬ ∀ r ∈ reportsFor s.log 0, r.ordStatus = .statusFilled ↔ r.leavesQty = 0)) = true := by
    decide +kernel
  obtain ⟨s, hreach, h⟩ := Reach.exists_of_execIf hrun
  exact ⟨s, hreach, of_decide_eq_true h⟩

end Reporting

end Elsa
