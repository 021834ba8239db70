import Elsa.System.Handling

/-!
# The range of level quantities and fill costs

`get_level_aggregate` and `get_fill_cost` add up in `int`.  The values that they compute on the way are listed by
`levelQuantities` and `fillCostValues`.  In two's complement they are the exact ones if these fit
(`levelQuantities_eq_iff`, `fillCostValues_eq_iff`), and the largest of the exact ones is the last.  So on a
consistent book nothing overflows exactly when the quantity of each level and the cost of each market order fit an
`int` (`Ok.exactAggregates_iff`).  The admission checks of the order manager bound a single order, not the orders of
a level together.
-/

namespace Elsa

open Base LimitOrderBook

namespace LimitOrderBook

variable {b : LimitOrderBook} {s : Side}

/-- The values of `level_quantity` after each order of a level. -/
def levelQuantities (A : Arith) : Int → List Node → List Int
  | _, [] => []
  | acc, n :: ns => A.int (acc + n.order.quantity) :: levelQuantities A (A.int (acc + n.order.quantity)) ns

/-- The values of `price * quantity` and `total_cost` in the loop of `get_fill_cost`, up to the first contract that
fails. -/
def fillCostValues (A : Arith) (b : LimitOrderBook) (side : Side) : Nat → Nat → Int → Int → List Int
  | 0, _, _, _ => []
  | n + 1, i, totalCost, quantity =>
    if quantity = 0 then []
    else
      match b.getLevelAggregate A side i with
      | .error _ => []
      | .ok aggregate =>
        if aggregate.quantity ≤ quantity then
          let cost := A.int (aggregate.price * aggregate.quantity)
          cost :: A.int (totalCost + cost) ::
            fillCostValues A b side n (i + 1) (A.int (totalCost + cost)) (quantity - aggregate.quantity)
        else
          let cost := A.int (aggregate.price * quantity)
          cost :: A.int (totalCost + cost) :: fillCostValues A b side n (i + 1) (A.int (totalCost + cost)) 0

/-- All values that are computed for a book are the exact ones. -/
structure ExactAggregates (b : LimitOrderBook) : Prop where
  quantities : ∀ s, ∀ e ∈ (b.getSide s).entries, levelQuantities .machine 0 e.2 = levelQuantities .exact 0 e.2
  costs : ∀ s q, 0 < q → IsInt32 q →
    b.fillCostValues .machine s (b.getSide s).size 0 0 q = b.fillCostValues .exact s (b.getSide s).size 0 0 q

/-! ### Level quantities -/

private theorem isInt32_levelQuantities {acc : Int} {ns : List Node} :
    ∀ v ∈ levelQuantities .machine acc ns, IsInt32 v := by
  induction ns generalizing acc with
  | nil => intro v hv; cases hv
  | cons n ns ih =>
    intro v hv
    rcases List.mem_cons.1 hv with rfl | hv
    · exact Arith.isInt32_machine _
    · exact ih v hv

theorem levelQuantities_eq_iff {acc : Int} {ns : List Node} :
    levelQuantities .machine acc ns = levelQuantities .exact acc ns ↔
    ∀ v ∈ levelQuantities .exact acc ns, IsInt32 v := by
  constructor
  · intro heq v hv
    exact isInt32_levelQuantities v (heq ▸ hv)
  · intro h
    induction ns generalizing acc with
    | nil => rfl
    | cons n ns ih =>
      have hfirst : Arith.machine.int (acc + n.order.quantity) = acc + n.order.quantity :=
        Arith.machine.int_eq _ (h _ List.mem_cons_self)
      have hrest : levelQuantities .machine (acc + n.order.quantity) ns =
          levelQuantities .exact (acc + n.order.quantity) ns :=
        ih fun v hv => h v (List.mem_cons_of_mem _ hv)
      rw [levelQuantities, hfirst, hrest]
      rfl

private theorem levelQuantities_bounds (acc : Int) {ns : List Node} (hpos : ∀ n ∈ ns, 0 < n.order.quantity) :
    (∀ v ∈ levelQuantities .exact acc ns, acc < v ∧ v ≤ acc + quantityOf ns) ∧
      acc + quantityOf ns ∈ acc :: levelQuantities .exact acc ns := by
  induction ns generalizing acc with
  | nil =>
    refine ⟨fun v hv => (by cases hv), ?_⟩
    simp [quantityOf]
  | cons n ns ih =>
    have hn := hpos n List.mem_cons_self
    have htail : ∀ m ∈ ns, 0 < m.order.quantity := fun m hm => hpos m (List.mem_cons_of_mem _ hm)
    have hnn := quantityOf_nonneg htail
    obtain ⟨hb, hlast⟩ := ih (acc + n.order.quantity) htail
    have hcons : acc + quantityOf (n :: ns) = acc + n.order.quantity + quantityOf ns := by
      simp only [quantityOf, List.map_cons, List.sum_cons]
      omega
    rw [hcons]
    refine ⟨fun v hv => ?_, List.mem_cons_of_mem _ hlast⟩
    rcases List.mem_cons.1 hv with rfl | hv
    · exact ⟨by show acc < acc + _; omega, by show acc + _ ≤ _; omega⟩
    · have := hb v hv
      omega

/-- The running quantity of a level is exact exactly when the quantity of the level fits. -/
private theorem levelQuantities_exact_iff {m : SideContainer} (hok : SideOk s m) {e : Int × List Node}
    (he : e ∈ m.entries) :
    levelQuantities .machine 0 e.2 = levelQuantities .exact 0 e.2 ↔ quantityOf e.2 ≤ 2147483647 := by
  have hpos : ∀ n ∈ e.2, 0 < n.order.quantity := fun n hn => (hok.node_ok e he n hn).quantity_pos
  obtain ⟨hb, hlast⟩ := levelQuantities_bounds 0 hpos
  rw [Int.zero_add] at hlast
  rw [levelQuantities_eq_iff]
  constructor
  · intro h
    rcases List.mem_cons.1 hlast with h0 | hmem
    · omega
    · exact (h _ hmem).2
  · intro hle v hv
    have := hb v hv
    exact ⟨by omega, by omega⟩

/-! ### Fill costs -/

private theorem isInt32_fillCostValues {n i : Nat} {total q : Int} :
    ∀ v ∈ b.fillCostValues .machine s n i total q, IsInt32 v := by
  induction n generalizing i total q with
  | zero => intro v hv; cases hv
  | succ n ih =>
    intro v hv
    rw [fillCostValues] at hv
    split at hv
    · cases hv
    split at hv
    · cases hv
    split at hv <;>
    · rcases List.mem_cons.1 hv with rfl | hv
      · exact Arith.isInt32_machine _
      rcases List.mem_cons.1 hv with rfl | hv
      · exact Arith.isInt32_machine _
      · exact ih v hv

/-- If the aggregates of the levels agree, the values on the way are exact exactly when the exact ones fit. -/
theorem fillCostValues_eq_iff (hagg : ∀ i, b.getLevelAggregate .machine s i = b.getLevelAggregate .exact s i)
    {n i : Nat} {total q : Int} : b.fillCostValues .machine s n i total q = b.fillCostValues .exact s n i total q ↔
      ∀ v ∈ b.fillCostValues .exact s n i total q, IsInt32 v := by
  constructor
  · intro heq v hv
    exact isInt32_fillCostValues v (heq ▸ hv)
  · intro h
    induction n generalizing i total q with
    | zero => rfl
    | succ n ih =>
      -- one round whose two values fit
      have hround : ∀ cost q',
          (∀ v ∈ cost :: (total + cost) :: b.fillCostValues .exact s n (i + 1) (total + cost) q', IsInt32 v) →
          Arith.machine.int cost :: Arith.machine.int (total + Arith.machine.int cost) ::
              b.fillCostValues .machine s n (i + 1) (Arith.machine.int (total + Arith.machine.int cost)) q' =
            cost :: (total + cost) :: b.fillCostValues .exact s n (i + 1) (total + cost) q' := by
        intro cost q' hv
        rw [Arith.machine.int_eq _ (hv _ List.mem_cons_self),
          Arith.machine.int_eq _ (hv _ (List.mem_cons_of_mem _ List.mem_cons_self)),
          ih fun v hmem => hv v (List.mem_cons_of_mem _ (List.mem_cons_of_mem _ hmem))]
      rw [fillCostValues] at h
      rw [fillCostValues, fillCostValues, hagg]
      split at h
      · rename_i hq
        rw [if_pos hq, if_pos hq]
      rename_i hq
      rw [if_neg hq, if_neg hq]
      cases hget : b.getLevelAggregate .exact s i with
      | error f => rfl
      | ok a =>
        simp only [hget, Arith.exact_int] at h ⊢
        split at h <;> rename_i hle
        · rw [if_pos hle, if_pos hle]
          exact hround _ _ h
        · rw [if_neg hle, if_neg hle]
          exact hround _ _ h

private theorem getLevelAggregate_pos {A : Arith} {i : Nat} {a : LevelAggregate}
    (h : b.getLevelAggregate A s i = .ok a) : 0 < a.price ∧ 0 < a.quantity := by
  simp only [getLevelAggregate, bind_eq_ok, require_eq_ok] at h
  obtain ⟨e, -, -, hpos, h⟩ := h
  cases h
  exact hpos

/-- The exact values grow up to the result of the loop. -/
private theorem fillCostValues_bounds {n i : Nat} {total q c : Int} (htotal : 0 ≤ total) (hq : 0 ≤ q)
    (h : b.fillCostLoop .exact s n i total q = .ok c) :
    total ≤ c ∧ (∀ v ∈ b.fillCostValues .exact s n i total q, 0 ≤ v ∧ v ≤ c) ∧
      c ∈ total :: b.fillCostValues .exact s n i total q := by
  induction n generalizing i total q with
  | zero =>
    cases h
    exact ⟨Int.le_refl _, fun v hv => (by cases hv), List.mem_cons_self⟩
  | succ n ih =>
    rw [fillCostLoop] at h
    rw [fillCostValues]
    by_cases hq0 : q = 0
    · rw [if_pos hq0] at h
      cases h
      rw [if_pos hq0]
      exact ⟨Int.le_refl _, fun v hv => (by cases hv), List.mem_cons_self⟩
    · rw [if_neg hq0, bind_eq_ok] at h
      obtain ⟨a, ha, h⟩ := h
      obtain ⟨hprice, hqty⟩ := getLevelAggregate_pos ha
      -- one round adds a cost that is not negative
      have hround : ∀ cost q', 0 ≤ cost → 0 ≤ q' → b.fillCostLoop .exact s n (i + 1) (total + cost) q' = .ok c →
          total ≤ c ∧ (∀ v ∈ cost :: (total + cost) :: b.fillCostValues .exact s n (i + 1)
          (total + cost) q', 0 ≤ v ∧ v ≤ c) ∧ c ∈ total :: cost :: (total + cost) :: b.fillCostValues .exact s n
            (i + 1) (total + cost) q' := by
        intro cost q' hcost hq' hloop
        obtain ⟨h1, h2, h3⟩ := ih (by omega) hq' hloop
        refine ⟨by omega, fun v hv => ?_, List.mem_cons_of_mem _ (List.mem_cons_of_mem _ h3)⟩
        rcases List.mem_cons.1 hv with rfl | hv
        · omega
        rcases List.mem_cons.1 hv with rfl | hv
        · omega
        · exact h2 v hv
      rw [if_neg hq0, ha]
      simp only [Arith.exact_int] at h ⊢
      by_cases hle : a.quantity ≤ q
      · rw [if_pos hle] at h ⊢
        exact hround _ _ (Int.mul_nonneg hprice.le hqty.le) (by omega) h
      · rw [if_neg hle] at h ⊢
        exact hround _ _ (Int.mul_nonneg hprice.le hq) (Int.le_refl 0) h

/-- With levels that fit, the aggregates agree. -/
private theorem Ok.getLevelAggregate_agree (h : b.Ok)
    (hlev : ∀ e ∈ (b.getSide s).entries, quantityOf e.2 ≤ 2147483647) (i : Nat) :
    b.getLevelAggregate .machine s i = b.getLevelAggregate .exact s i := by
  cases hget : (levelsOf s (b.getSide s))[i]? with
  | none => simp only [getLevelAggregate, hget]; rfl
  | some e =>
    have hle := hlev e (mem_levelsOf.1 (List.mem_of_getElem? hget))
    rw [getLevelAggregate_eq (fun _ => Arith.machine_int_of_le) (h.side_ok s) hget hle,
      getLevelAggregate_eq (fun _ _ _ => rfl) (h.side_ok s) hget (le_refl _)]

/-- On a consistent book no value overflows exactly when each level and each quote fits. -/
theorem Ok.exactAggregates_iff (h : b.Ok) :
    b.ExactAggregates ↔ ∀ s q, 0 < q → IsInt32 q → QuoteFits 2147483647 b s q := by
  have hloop : ∀ s q, 0 < q → b.fillCostLoop .exact s (b.getSide s).size 0 0 q = .ok (b.quote s q) := by
    intro s q hq
    obtain ⟨bound, hfit⟩ := b.exists_quoteFits s q
    exact h.fillCostLoop_quote (fun _ _ _ => rfl) hq hfit
  constructor
  · intro hex s q hq hq32
    have hlev : ∀ e ∈ (b.getSide s).entries, quantityOf e.2 ≤ 2147483647 :=
      fun e he => (levelQuantities_exact_iff (h.side_ok s) he).1 (hex.quantities s e he)
    obtain ⟨-, -, hlast⟩ := fillCostValues_bounds (Int.le_refl 0) hq.le (hloop s q hq)
    refine ⟨hlev, ?_⟩
    rcases List.mem_cons.1 hlast with h0 | hmem
    · omega
    · exact ((fillCostValues_eq_iff (h.getLevelAggregate_agree hlev)).1 (hex.costs s q hq hq32) _ hmem).2
  · intro hfit
    refine ⟨fun s e he => ?_, fun s q hq hq32 => ?_⟩
    · exact (levelQuantities_exact_iff (h.side_ok s) he).2 ((hfit s 1 (by decide) (by decide)).level_le e he)
    · have hf := hfit s q hq hq32
      obtain ⟨-, hb, -⟩ := fillCostValues_bounds (Int.le_refl 0) hq.le (hloop s q hq)
      refine (fillCostValues_eq_iff (h.getLevelAggregate_agree hf.level_le)).2 fun v hv => ?_
      have := hb v hv
      have := hf.quote_le
      exact ⟨by omega, by omega⟩

/-- It is enough that each level fits, and all orders of a side together. -/
private theorem Ok.quoteFits_of_worth (h : b.Ok) (hlev : ∀ e ∈ (b.getSide s).entries, quantityOf e.2 ≤ 2147483647)
    (hworth : costOf ((b.queue s).map nodeLots.whole) ≤ 2147483647) (q : Int) : QuoteFits 2147483647 b s q := by
  refine ⟨hlev, Int.le_trans ?_ hworth⟩
  have hle := nodeLots.cost_allot_le (fun n hn => (h.node_ok (s := s) hn).2.1.le)
    (fun n hn => (h.node_ok hn).1.quantity_pos) q
  simpa [quote, costOf, Lots.whole, Function.comp_def] using hle

/-- Without overflow the contracts hold and the results are exact. -/
private theorem Ok.results_exact (h : b.Ok) (hex : b.ExactAggregates) :
    (∀ s i, i < (b.getSide s).size → ∃ a, b.getLevelAggregate .machine s i = .ok a ∧
      b.getLevelAggregate .exact s i = .ok a ∧ 0 < a.quantity) ∧
    ∀ s q, 0 < q → IsInt32 q → ∃ cost, b.getFillCost .machine q s = .ok cost ∧ b.getFillCost .exact q s = .ok cost ∧
      ∀ c ∈ cost, 0 < c := by
  have hfit := h.exactAggregates_iff.1 hex
  have hint : ∀ x, 0 ≤ x → x ≤ 2147483647 → Arith.machine.int x = x := fun _ => Arith.machine_int_of_le
  refine ⟨fun s i hi => ?_, fun s q hq hq32 => ?_⟩
  · rw [← levelsOf_length s] at hi
    have hget := List.getElem?_eq_getElem hi
    have hmem := mem_levelsOf.1 (List.getElem_mem hi)
    have hmachine := getLevelAggregate_eq hint (h.side_ok s) hget ((hfit s 1 (by decide) (by decide)).level_le _ hmem)
    exact ⟨_, hmachine, getLevelAggregate_eq (fun _ _ _ => rfl) (h.side_ok s) hget (le_refl _),
      (getLevelAggregate_pos hmachine).2⟩
  · refine ⟨_, h.getFillCost_eq hint hq (hfit s q hq hq32), h.getFillCost_exact hq, fun c hc => ?_⟩
    split at hc
    · cases hc
    · rename_i hne
      cases hc
      exact h.quote_pos hq hne

end LimitOrderBook

namespace Exchange

/-- In every book of every run nothing overflows exactly when the quantities of its levels and the cost of every
market order fit an `int`.  Then the contracts hold, and the cost that is sent to the order manager is the true one.
-/
theorem aggregates_exact_iff (cfg : Config) (balances : BalanceChecker) (s : Exchange)
    (h : FedReachable cfg .machine balances s) (symbol : String) (b : LimitOrderBook)
    (hb : s.me.limitOrderBooks symbol = some b) :
    (b.ExactAggregates ↔ ∀ side q, 0 < q → IsInt32 q → QuoteFits 2147483647 b side q) ∧
    (b.ExactAggregates →
      (∀ side i, i < (b.getSide side).size → ∃ a, b.getLevelAggregate .machine side i = .ok a ∧
        b.getLevelAggregate .exact side i = .ok a ∧ 0 < a.quantity) ∧
      ∀ side q draw sendOk, 0 < q → IsInt32 q → ∃ cost, b.getFillCost .exact q side = .ok cost ∧ (∀ c ∈ cost, 0 < c) ∧
        s.me.processContainer .machine draw sendOk (.fillCostQuery ⟨symbol, q, side⟩) =
          .ok (s.me, ⟨[], if sendOk 0 then [.fillCostResponse ⟨cost⟩] else []⟩)) := by
  have hok := ((serves_of_reachable h).engine_ok.book_ok symbol b hb).1
  refine ⟨hok.exactAggregates_iff, fun hex => ?_⟩
  obtain ⟨hlevels, hcosts⟩ := hok.results_exact hex
  refine ⟨hlevels, fun side q draw sendOk hq hq32 => ?_⟩
  obtain ⟨cost, hmachine, hexact, hpos⟩ := hcosts side q hq hq32
  refine ⟨cost, hexact, hpos, ?_⟩
  simp only [MatchingEngine.processContainer, MatchingEngine.fillCostQueryHandler, hb, orFail_some, ok_bind, hmachine]
  rfl

/-- `bob`'s ask for ten shares at 100 is the whole book. -/
theorem aggregates_exact_sampleAsk : ∃ s b, FedReachable twoUsers .machine twoBalances s ∧
    s.me.limitOrderBooks "GME" = some b ∧ b.ExactAggregates ∧
    s.me.processContainer .machine zeroStamps (fun _ => true) (.fillCostQuery ⟨"GME", 4, .ask⟩) =
      .ok (s.me, ⟨[], [.fillCostResponse ⟨some 400⟩]⟩) := by
  have hrun : (execIf (step twoUsers .machine) (fun _ e => Fed e) (start twoUsers twoBalances)
      [.request (.newOrderSingle sampleAsk) 0 noIds, .matching zeroStamps]).any (fun s =>
        (s.me.limitOrderBooks "GME").any fun b => decide (b.quote .ask 4 = 400 ∧ b.queue .ask ≠ [] ∧
          ∀ side ∈ [Side.bid, .ask], (∀ e ∈ (b.getSide side).entries, quantityOf e.2 ≤ 2147483647) ∧
          costOf ((b.queue side).map nodeLots.whole) ≤ 2147483647)) = true := by
    decide +kernel
  obtain ⟨s, hreach, h⟩ := Reach.exists_of_execIf hrun
  obtain ⟨b, hb, h⟩ := (Option.any_eq_true _ _).1 h
  obtain ⟨hquote, hne, hfits⟩ := of_decide_eq_true h
  have hok := ((serves_of_reachable hreach).engine_ok.book_ok "GME" b hb).1
  obtain ⟨hiff, hexact⟩ := aggregates_exact_iff twoUsers twoBalances s hreach "GME" b hb
  have hex : b.ExactAggregates := by
    refine hiff.2 fun side q _ _ => ?_
    obtain ⟨hlev, hworth⟩ := hfits side (by cases side <;> decide)
    exact hok.quoteFits_of_worth hlev hworth q
  obtain ⟨cost, hcost, -, hsent⟩ := (hexact hex).2 .ask 4 zeroStamps (fun _ => true) (by decide) (by decide)
  rw [hok.getFillCost_exact (by decide), if_neg hne, hquote] at hcost
  cases hcost
  exact ⟨s, b, hreach, hb, hex, hsent⟩

/-- A user with enough dollars and shares. -/
def richBalances : BalanceChecker := fun u =>
  if u = "ann" then some fun tk => if tk = "USD" then some 10000000000 else none
  else if u = "bob" then some fun tk => if tk = "GME" then some 65537 else none
  else none

/-- `ann` bids twice for 2147483647 shares at 1, `bob` asks 65537 for each of 65537 shares. -/
def largeOrders : List Event :=
  [.request (.newOrderSingle ⟨"ann", "GME_SERVER", none, 1, "GME", .bid, 2147483647, .limit, some 1, .day⟩) 0 noIds,
    .request (.newOrderSingle ⟨"ann", "GME_SERVER", none, 2, "GME", .bid, 2147483647, .limit, some 1, .day⟩) 0 noIds,
    .request (.newOrderSingle ⟨"bob", "GME_SERVER", none, 1, "GME", .ask, 65537, .limit, some 65537, .day⟩) 0 noIds,
    .matching zeroStamps, .matching zeroStamps, .matching zeroStamps]

/-- The quantity of the bids wraps around to -2, and the cost of the asks to 131073. -/
theorem aggregates_wrap_around : (∀ u tk x, richBalances.entry u tk = some x → 0 ≤ x ∧ IsInt64 x) ∧
    ∃ s b, FedReachable twoUsers .machine richBalances s ∧ s.me.limitOrderBooks "GME" = some b ∧
      (b.bids.entries.map fun e => (e.1, levelQuantity .machine e.2, levelQuantity .exact e.2)) =
        [(1, -2, 4294967294)] ∧
      errorOf (b.getLevelAggregate .machine .bid 0) = some (.contract .getLevelAggregate) ∧
      (b.getFillCost .machine 65537 .ask).toOption = some (some 131073) ∧
      (b.getFillCost .exact 65537 .ask).toOption = some (some 4295098369) ∧ ¬ b.ExactAggregates := by
  refine ⟨fun u tk x hx => ?_, ?_⟩
  · unfold BalanceChecker.entry richBalances at hx
    split at hx
    · simp only [Option.bind_some] at hx
      split at hx
      · cases hx; decide
      · cases hx
    · split at hx
      · simp only [Option.bind_some] at hx
        split at hx
        · cases hx; decide
        · cases hx
      · cases hx
  · have hrun : (execIf (step twoUsers .machine) (fun _ e => Fed e) (start twoUsers richBalances) largeOrders).any
        (fun s =>
        (s.me.limitOrderBooks "GME").any fun b => decide (
          (b.bids.entries.map fun e => (e.1, levelQuantity .machine e.2, levelQuantity .exact e.2)) =
          [(1, -2, 4294967294)] ∧
          errorOf (b.getLevelAggregate .machine .bid 0) = some (.contract .getLevelAggregate) ∧
          (b.getFillCost .machine 65537 .ask).toOption = some (some 131073) ∧
          (b.getFillCost .exact 65537 .ask).toOption = some (some 4295098369))) = true := by decide +kernel
    obtain ⟨s, hreach, h⟩ := Reach.exists_of_execIf hrun
    obtain ⟨b, hb, h⟩ := (Option.any_eq_true _ _).1 h
    obtain ⟨hbids, herr, hmachine, hexact⟩ := of_decide_eq_true h
    have hok := ((serves_of_reachable hreach).engine_ok.book_ok "GME" b hb).1
    refine ⟨s, b, hreach, hb, hbids, herr, hmachine, hexact, fun hex => ?_⟩
    obtain ⟨cost, h1, h2, -⟩ := (hok.results_exact hex).2 .ask 65537 (by decide) (by decide)
    rw [h1] at hmachine
    rw [h2] at hexact
    exact absurd (hmachine.symm.trans hexact) (by decide)

end Exchange

end Elsa
