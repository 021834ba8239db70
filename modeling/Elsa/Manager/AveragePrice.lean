import Elsa.Base.RunningAverage
import Elsa.Manager.Process

/-!
# The average price of an order

`update_internal_data` keeps the average price of an order as an integer: with each trade it multiplies the old
average by the filled quantity, adds the value of the trade and divides again.  So an order is a running average of
its fills (`updateInternalData_average`).  Whether the average that is reported is the rounded average of the fills
can be read off the sums of values and of quantities over the first fills, the first two and so on
(`avgPx_eq_average_iff`): so it is where the remainders of these sums never decrease.
-/

namespace Elsa

open Base

/-- The fills of an order by a trade, as price and quantity. -/
def TradeContainer.fillsOf (t : TradeContainer) (id : Int) : List (Int × Int) :=
  (if t.takerOrderId = id then [(t.price, t.quantity)] else []) ++
    if t.makerOrderId = id then [(t.price, t.quantity)] else []

def Container.fillsOf (id : Int) : Container → List (Int × Int)
  | .trade t => t.fillsOf id
  | _ => []

/-- All fills of an order, in the order in which the responses are processed. -/
def fillsOf (id : Int) (cs : List Container) : List (Int × Int) := cs.flatMap fun c => c.fillsOf id

/-- `update_internal_data` for one response after the other. -/
def updateAll (A : Arith) (om : OrderManager) (cs : List Container) : Except Fault OrderManager :=
  cs.foldlM (updateInternalData A) om

def OrderInfo.average (info : OrderInfo) : Average := ⟨info.avgPx, info.cumQty⟩

/-- One half of a trade adds a fill to the order it names. -/
private theorem applyTradeTo_average {infos infos' : Int → Option OrderInfo} {id id' price quantity : Int}
    {info : OrderInfo} (hinfo : infos id = some info)
    (h : applyTradeTo .exact infos id' price quantity = .ok infos') :
    ∃ info', infos' id = some info' ∧
      info'.average = info.average.addAll (if id' = id then [(price, quantity)] else []) := by
  obtain ⟨info₁, hinfo₁, -, rfl⟩ := applyTradeTo_eq_ok_iff.1 h
  by_cases hid : id' = id
  · subst hid
    rw [hinfo] at hinfo₁
    cases hinfo₁
    exact ⟨_, Function.update_self .., by rw [if_pos rfl]; rfl⟩
  · rw [if_neg hid]
    exact ⟨info, (Function.update_of_ne (Ne.symm hid) ..).trans hinfo, rfl⟩

/-- A response adds its fills to the order. -/
theorem updateInternalData_average {om om' : OrderManager} {c : Container} {id : Int} {info : OrderInfo}
    (hinfo : om.orderInfoMap id = some info) (h : updateInternalData .exact om c = .ok om') :
    ∃ info', om'.orderInfoMap id = some info' ∧ info'.average = info.average.addAll (c.fillsOf id) := by
  cases c with
  | trade t =>
    simp only [updateInternalData, bind_eq_ok, require_eq_ok] at h
    obtain ⟨-, -, infos₁, h₁, infos₂, h₂, bc₁, -, b, -, bc₂, -, bc₃, -, h⟩ := h
    cases h
    obtain ⟨info₁, hinfo₁, heq₁⟩ := applyTradeTo_average hinfo h₁
    obtain ⟨info₂, hinfo₂, heq₂⟩ := applyTradeTo_average hinfo₁ h₂
    refine ⟨info₂, hinfo₂, ?_⟩
    rw [heq₂, heq₁, ← Average.addAll_append]
    rfl
  | cancelOrderResponse r =>
    -- a cancellation changes balances only
    obtain ⟨cancelled, clOrdId, success⟩ := r
    refine ⟨info, ?_, rfl⟩
    cases success with
    | true =>
      obtain ⟨-, -, bc, -, -, -, rfl⟩ := updateInternalData_cancel.1 h
      exact hinfo
    | false =>
      cases h
      exact hinfo
  | newOrderSingle | cancelOrderRequest | executionReport | fillCostQuery | fillCostResponse => cases h

private theorem updateAll_average {cs : List Container} {id : Int} :
    ∀ {om om' : OrderManager} {info : OrderInfo},
    om.orderInfoMap id = some info → updateAll .exact om cs = .ok om' →
    ∃ info', om'.orderInfoMap id = some info' ∧ info'.average = info.average.addAll (fillsOf id cs) := by
  induction cs with
  | nil =>
    intro om om' info hinfo h
    cases h
    exact ⟨info, hinfo, rfl⟩
  | cons c cs ih =>
    intro om om' info hinfo h
    rw [updateAll, List.foldlM_cons, bind_eq_ok] at h
    obtain ⟨om₁, h₁, h⟩ := h
    obtain ⟨info₁, hinfo₁, heq₁⟩ := updateInternalData_average hinfo h₁
    obtain ⟨info₂, hinfo₂, heq₂⟩ := ih hinfo₁ h
    refine ⟨info₂, hinfo₂, ?_⟩
    rw [heq₂, heq₁, ← Average.addAll_append]
    rfl

private theorem fillsOf_pos {cs : List Container} (h : ∀ t, .trade t ∈ cs → 0 < t.price ∧ 0 < t.quantity)
    (id : Int) : ∀ e ∈ fillsOf id cs, 0 < e.1 ∧ 0 < e.2 := by
  intro e he
  obtain ⟨c, hc, he⟩ := List.mem_flatMap.1 he
  cases c with
  | trade t =>
    have hfill : e = (t.price, t.quantity) := by
      rcases List.mem_append.1 he with he | he <;> split at he
      · exact List.mem_singleton.1 he
      · cases he
      · exact List.mem_singleton.1 he
      · cases he
    rw [hfill]
    exact h t hc
  | _ => cases he

/-- The sum of the values and the sum of the quantities of the first fills of an order. -/
def valueTo (fills : List (Int × Int)) (i : Nat) : Int := weightedSum (fills.take i)

def quantityTo (fills : List (Int × Int)) (i : Nat) : Int := totalWeight (fills.take i)

/-- After any responses the average price of an order is the rounded average of all its fills, exactly when there are
numbers that never decrease, each with the remainder of the sum of the values of the first fills by the sum of their
quantities, and the last of them is below the quantity filled.  These remainders themselves are such numbers where
they never decrease. -/
theorem avgPx_eq_average_iff (om om' : OrderManager) (cs : List Container) (id : Int) (info : OrderInfo)
    (hinfo : om.orderInfoMap id = some info) (hcum : info.cumQty = 0) (havg : info.avgPx = 0)
    (hpos : ∀ t, .trade t ∈ cs → 0 < t.price ∧ 0 < t.quantity) (hrun : updateAll .exact om cs = .ok om')
    {fills : List (Int × Int)} (hfills : fillsOf id cs = fills) (hne : fills ≠ []) :
    ∃ info', om'.orderInfoMap id = some info' ∧ info'.cumQty = (fills.map Prod.snd).sum ∧
      (info'.avgPx = (fills.map fun f => f.1 * f.2).sum / (fills.map Prod.snd).sum ↔
        ∃ l : Nat → Int, (∀ i < fills.length, l i ≤ l (i + 1)) ∧
          (∀ i ≤ fills.length, quantityTo fills i ∣ valueTo fills i - l i) ∧
          l fills.length < (fills.map Prod.snd).sum) ∧
      ((∀ i < fills.length, valueTo fills i % quantityTo fills i ≤
          valueTo fills (i + 1) % quantityTo fills (i + 1)) →
        info'.avgPx = (fills.map fun f => f.1 * f.2).sum / (fills.map Prod.snd).sum) := by
  subst hfills
  obtain ⟨info', hinfo', heq⟩ := updateAll_average hinfo hrun
  have hzero : info.average = Average.zero := by rw [OrderInfo.average, hcum, havg]; rfl
  rw [hzero] at heq
  have hvalue : info'.avgPx = (Average.zero.addAll (fillsOf id cs)).value := congrArg Average.value heq
  have hcum' : info'.cumQty = totalWeight (fillsOf id cs) := by
    have hweight := congrArg Average.weight heq
    rw [Average.addAll_weight] at hweight
    exact hweight.trans (Int.zero_add _)
  have hiff := Average.addAll_value_eq_iff hne (fillsOf_pos hpos id)
  rw [← hvalue] at hiff
  refine ⟨info', hinfo', hcum', ?_, ?_⟩
  · refine hiff.trans (exists_congr fun l => ?_)
    constructor
    · rintro ⟨hcarry, hlast⟩
      exact ⟨hcarry.mono, hcarry.dvd, hlast⟩
    · rintro ⟨hmono, hdvd, hlast⟩
      exact ⟨⟨hmono, hdvd⟩, hlast⟩
  · intro hgrow
    have hpos' : 0 < totalWeight (fillsOf id cs) := totalWeight_pos hne fun e he => (fillsOf_pos hpos id e he).2
    refine hiff.2 ⟨_, Carry.of_remainders hgrow, ?_⟩
    show weightedSum ((fillsOf id cs).take _) % totalWeight ((fillsOf id cs).take _) < totalWeight (fillsOf id cs)
    rw [List.take_length]
    exact Int.emod_lt_of_pos _ hpos'

/-! ### A sample order -/

/-- `bob` asks for one share at each of the prices 1, 2 and 3, and `ann` bids for three. -/
def sampleFilling : List Input :=
  [1, 2, 3].map (fun price => .request
    (.newOrderSingle ⟨"bob", "GME_SERVER", none, price, "GME", .ask, 1, .limit, some price, .day⟩)
    0 true fun _ => "") ++
  [.request (.newOrderSingle ⟨"ann", "GME_SERVER", none, 1, "GME", .bid, 3, .limit, some 3, .day⟩) 0 true fun _ => ""]

/-- The trade with the ask at a price. -/
def sampleFill (price : Int) : Container := .trade ⟨"GME", price, 1, "", "ann", "bob", 3, price - 1, true⟩

private theorem sampleFill_pos {prices : List Int} (h : ∀ p ∈ prices, 0 < p) :
    ∀ t, .trade t ∈ prices.map sampleFill → 0 < t.price ∧ 0 < t.quantity := by
  intro t ht
  obtain ⟨p, hp, heq⟩ := List.mem_map.1 ht
  cases heq
  exact ⟨h p hp, Int.one_pos⟩

/-- After two of the three trades: the remainders are those of 1 by 1 and of 3 by 2. -/
theorem avgPx_sampleFill : ∃ m om' info', Manager.Reachable twoUsers .exact twoBalances m ∧
    updateAll .exact m.om ([1, 2].map sampleFill) = .ok om' ∧ om'.orderInfoMap 3 = some info' ∧
    info'.avgPx = (1 + 2) / 2 := by
  have hrun : (execIf (Manager.step twoUsers .exact) (fun _ _ => True)
      ⟨.init twoBalances, none, []⟩ sampleFilling).any
      (fun m => (m.om.orderInfoMap 3).any (fun info => decide (info.cumQty = 0 ∧ info.avgPx = 0)) &&
        (updateAll .exact m.om ([1, 2].map sampleFill)).isOk) = true := by decide +kernel
  obtain ⟨m, hreach, h⟩ := Reach.exists_of_execIf hrun
  rw [Bool.and_eq_true, Option.any_eq_true] at h
  obtain ⟨⟨info, hinfo, h0⟩, hok⟩ := h
  obtain ⟨hcum, havg⟩ := of_decide_eq_true h0
  cases hup : updateAll .exact m.om ([1, 2].map sampleFill) with
  | error f => rw [hup] at hok; cases hok
  | ok om' =>
    have hfills : fillsOf 3 ([1, 2].map sampleFill) = [(1, 1), (2, 1)] := by decide
    obtain ⟨info', hinfo', -, -, hgrow⟩ := avgPx_eq_average_iff m.om om' _ 3 info hinfo hcum havg
      (sampleFill_pos (by decide)) hup hfills (by decide)
    exact ⟨m, om', info', hreach, hup, hinfo', hgrow (by decide)⟩

/-- After all three trades the order has paid six for three shares, and its average price is one. -/
theorem avgPx_too_low : ∃ m om' info', Manager.Reachable twoUsers .exact twoBalances m ∧
    updateAll .exact m.om ([1, 2, 3].map sampleFill) = .ok om' ∧
    (m.om.orderInfoMap 3).map OrderInfo.average = some .zero ∧ om'.orderInfoMap 3 = some info' ∧
    fillsOf 3 ([1, 2, 3].map sampleFill) = [(1, 1), (2, 1), (3, 1)] ∧ info'.avgPx = 1 ∧
    info'.avgPx ≠ (1 * 1 + 2 * 1 + 3 * 1) / (1 + 1 + 1) := by
  have hrun : (execIf (Manager.step twoUsers .exact) (fun _ _ => True)
      ⟨.init twoBalances, none, []⟩ sampleFilling).any
      (fun m => decide ((m.om.orderInfoMap 3).map OrderInfo.average = some .zero) &&
        ((updateAll .exact m.om ([1, 2, 3].map sampleFill)).toOption.bind fun om' => om'.orderInfoMap 3).any
        (fun info' => decide (info'.avgPx = 1))) = true := by decide +kernel
  obtain ⟨m, hreach, h⟩ := Reach.exists_of_execIf hrun
  rw [Bool.and_eq_true, Option.any_eq_true] at h
  obtain ⟨hzero, info', hinfo', havg⟩ := h
  obtain ⟨om', hup, hinfo'⟩ := Option.bind_eq_some_iff.1 hinfo'
  have havg' := of_decide_eq_true havg
  have hup' : updateAll .exact m.om ([1, 2, 3].map sampleFill) = .ok om' := by
    cases hall : updateAll .exact m.om ([1, 2, 3].map sampleFill) with
    | error f => rw [hall] at hup; cases hup
    | ok om₁ => rw [hall] at hup; cases hup; rfl
  refine ⟨m, om', info', hreach, hup', of_decide_eq_true hzero, hinfo', by decide, havg', ?_⟩
  rw [havg']
  decide

end Elsa
