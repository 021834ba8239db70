import Elsa.Engine.BookInvariant

/-!
# Where the quantity of an order goes

A run of a book with its history: the orders that were added, the trades, what `cancel_order` took out of the book
and what `match_order` dropped.  For every id, the quantity that was added under it is what was traded, what rests,
what was cancelled and what was dropped (`Conserved.total`).  One call keeps this equation (`Conserved.step`), so it
holds along every run, and when ids are not used twice it is a statement about single orders.
-/

namespace Elsa

open Base

namespace LimitOrderBook

/-- The quantity of the order that the index knows under an id. -/
def restingQuantity (b : LimitOrderBook) (orderId : Int) : Int :=
  match (b.orderIdMap orderId).bind b.deref with
  | some n => n.order.quantity
  | none => 0

/-- `remaining_quantity` at the end of `match_order` when the order is not stored. -/
def discardedQuantity (draw : Nat → Stamp) (b : LimitOrderBook) (t : Taker) (quantity : Int) : Int :=
  let far := b.getSide t.side.opposite
  match matchLevels draw b.ticker t far.size far ⟨b.orderIdMap, quantity, []⟩ with
  | .ok (_, p) =>
    if 0 < p.remainingQuantity ∧ t.price ≠ marketBidOrderPrice ∧ t.price ≠ marketAskOrderPrice then 0
    else p.remainingQuantity
  | .error _ => 0

private theorem Ok.restingQuantity_eq {b : LimitOrderBook} (h : b.Ok) (id : Int) :
    b.restingQuantity id = totalAt nodeLots.key nodeLots.cap b.nodes id := by
  unfold restingQuantity
  cases hix : b.orderIdMap id with
  | none => exact (totalAt_eq_zero (h.not_resting hix)).symm
  | some a =>
    obtain ⟨n, hn, rfl, rfl⟩ := h.exists_node hix
    have hkeys := h.indexed.keys_nodup
    rw [slots, List.map_map] at hkeys
    rw [Option.bind_some, h.deref_eq hn]
    have htotal : totalAt nodeLots.key nodeLots.cap b.nodes n.order.orderId = n.order.quantity :=
      totalAt_of_mem hkeys hn
    exact htotal.symm

/-- What a match does not fill is stored or dropped. -/
private theorem Ok.discardedQuantity_eq {b : LimitOrderBook} (h : b.Ok) {draw : Nat → Stamp} {t : Taker} {q : Int}
    (hq : 0 ≤ q) {ts : List Trade} (hts : tradesFor draw b.ticker t 0 (b.fills t q) = .ok ts) :
    b.discardedQuantity draw t q = if b.Rests t q then 0 else b.remainder t q := by
  obtain ⟨far', -, -, heq⟩ := matchLevels_eq b.ticker t (b.getSide t.side.opposite).size (b.getSide t.side.opposite) q
    (h.side_ok _) hq (le_refl _)
  have hrun : matchLevels draw b.ticker t (b.getSide t.side.opposite).size (b.getSide t.side.opposite)
      ⟨b.orderIdMap, q, []⟩ = (do
        let ts ← tradesFor draw b.ticker t 0 (b.fills t q)
        return (far', Progress.after ⟨b.orderIdMap, q, []⟩ (t.reached (b.queue t.side.opposite)) ts)) :=
    heq draw ⟨b.orderIdMap, q, []⟩ rfl
  rw [hts] at hrun
  simp only [discardedQuantity, hrun]
  rfl

/-- An order that was added, with its quantity. -/
structure Added where
  taker : Taker
  quantity : Int
deriving DecidableEq, Repr

/-- A book and what happened to it. -/
structure Run where
  book : LimitOrderBook
  orders : List Added
  trades : List Trade
  cancelled : List (Int × Int)
  discarded : List (Int × Int)

namespace Run

def start (ticker : String) : Run := ⟨.new ticker, [], [], [], []⟩

/-- A call that returns, with the quantity that it takes out of the book or drops. -/
def step (r : Run) (e : Call × (Nat → Stamp)) : Option Run :=
  match e.1.run e.2 r.book with
  | .error _ => none
  | .ok (book, trades) =>
    match e.1 with
    | .add orderId price quantity side brokerId =>
      let taker : Taker := ⟨orderId, price, side, brokerId⟩
      some { r with
        book
        orders := r.orders ++ [⟨taker, quantity⟩]
        trades := r.trades ++ trades
        discarded := r.discarded ++ [(orderId, r.book.discardedQuantity e.2 taker quantity)] }
    | .cancel orderId =>
      some { r with book, cancelled := r.cancelled ++ [(orderId, r.book.restingQuantity orderId)] }

/-- A call that meets its contract and does not use an id again. -/
def Allows (r : Run) (e : Call × (Nat → Stamp)) : Prop :=
  e.1.Admissible r.book ∧
    match e.1 with
    | .add orderId _ _ _ _ => orderId ∉ r.orders.map (fun o => o.taker.orderId)
    | .cancel _ => True

instance (r : Run) : ∀ e : Call × (Nat → Stamp), Decidable (r.Allows e)
  | (.add _ _ _ _ _, _) => inferInstanceAs (Decidable (_ ∧ _))
  | (.cancel _, _) => inferInstanceAs (Decidable (_ ∧ True))

end Run

end LimitOrderBook

/-- A trade is between two orders of opposite sides, at the maker's limit and within the taker's. -/
def Trade.Between (tr : Trade) (taker maker : Taker) : Prop :=
  taker.orderId = tr.takerOrderId ∧ maker.orderId = tr.makerOrderId ∧ taker.side = maker.side.opposite ∧
    tr.price = maker.price ∧ taker.Crosses tr.price

/-! ### The trades of a call -/

/-- Every trade of a call counts for its taker, and each for its maker. -/
private theorem totalAt_trades {draw : Nat → Stamp} {ticker : String} {t : Taker} {fs : List (Node × Int)}
    {ts : List Trade} (hts : ts = (fs.zipIdx 0).map (fun f => tradeOf (draw f.2) ticker t f.1.1.order f.1.2))
    (id : Int) :
    totalAt Trade.takerOrderId Trade.quantity ts id = (if t.orderId = id then (fs.map Prod.snd).sum else 0) ∧
      totalAt Trade.makerOrderId Trade.quantity ts id = totalAt (fun f => nodeLots.key f.1) Prod.snd fs id := by
  subst hts
  rw [totalAt_map, totalAt_map]
  constructor
  · refine (totalAt_zipIdx (fun _ => t.orderId) Prod.snd fs 0 id).trans ?_
    unfold totalAt
    split
    · rfl
    · simp
  · exact totalAt_zipIdx (fun f => nodeLots.key f.1) Prod.snd fs 0 id

namespace LimitOrderBook

namespace Run

/-- The invariant of a run. -/
structure Conserved (r : Run) : Prop where
  ok : r.book.Ok
  nodup : (r.orders.map fun o => o.taker.orderId).Nodup
  resting : ∀ n ∈ r.book.nodes, ∃ o ∈ r.orders, o.taker.orderId = n.order.orderId ∧ o.taker.side = n.order.side ∧
    o.taker.price = n.order.price
  total : ∀ id, totalAt (fun o => o.taker.orderId) Added.quantity r.orders id =
    totalAt Trade.takerOrderId Trade.quantity r.trades id + totalAt Trade.makerOrderId Trade.quantity r.trades id +
      totalAt nodeLots.key nodeLots.cap r.book.nodes id + totalAt Prod.fst Prod.snd r.cancelled id +
      totalAt Prod.fst Prod.snd r.discarded id
  reserved : ∀ d ∈ r.discarded, d.2 ≠ 0 → ∃ o ∈ r.orders, o.taker.orderId = d.1 ∧
    (o.taker.price = marketBidOrderPrice ∨ o.taker.price = marketAskOrderPrice)
  trades : ∀ tr ∈ r.trades, 0 < tr.quantity ∧ tr.takerOrderId ≠ tr.makerOrderId ∧
    ∃ taker ∈ r.orders, ∃ maker ∈ r.orders, tr.Between taker.taker maker.taker

private theorem start_conserved (ticker : String) : (start ticker).Conserved where
  ok := new_ok ticker
  nodup := List.nodup_nil
  resting n hn := by cases hn
  total _ := rfl
  reserved d hd := by cases hd
  trades tr htr := by cases htr

/-- Adding an order. -/
theorem Conserved.add {r : Run} (h : r.Conserved) {t : Taker} {q : Int} {draw : Nat → Stamp} {b' : LimitOrderBook}
    {ts : List Trade} (ha : (Call.add t.orderId t.price q t.side t.brokerId).Admissible r.book)
    (hnew : t.orderId ∉ r.orders.map (fun o => o.taker.orderId))
    (hrun : r.book.addOrder draw t.orderId t.price q t.side t.brokerId = .ok (b', ts)) :
    Conserved { r with
      book := b'
      orders := r.orders ++ [⟨t, q⟩]
      trades := r.trades ++ ts
      discarded := r.discarded ++ [(t.orderId, r.book.discardedQuantity draw t q)] } := by
  have hq : 0 < q := ha.2.2.2.2.1
  have ht : t.Ok := ha.takerOk
  obtain ⟨hm, hok, hfor, hts⟩ := h.ok.addOrder_ok ht hq ha.2.1 hrun
  have hdrop := h.ok.discardedQuantity_eq hq.le hfor
  have hself : (⟨t, q⟩ : Added) ∈ r.orders ++ [⟨t, q⟩] := by simp
  have hold : ∀ {o}, o ∈ r.orders → o ∈ r.orders ++ [(⟨t, q⟩ : Added)] := fun ho => List.mem_append_left _ ho
  refine ⟨hok, ?_, fun n hn => ?_, fun id => ?_, fun d hd hne => ?_, fun tr htr => ?_⟩
  · exact nodup_map_concat h.nodup hnew
  · rcases hm.mem_nodes hq.le hn with ⟨m, hmem, k, rfl⟩ | ⟨-, rfl⟩
    · obtain ⟨o, ho, h1, h2, h3⟩ := h.resting m hmem
      exact ⟨o, hold ho, h1, h2, h3⟩
    · exact ⟨_, hself, rfl, rfl, rfl⟩
  · -- the makers give what the taker gets; the rest is stored or dropped
    obtain ⟨htaker, hmaker⟩ := totalAt_trades hts id
    have hheld := hm.held hq.le id
    have hsum := r.book.sum_fills t q
    have htotal := h.total id
    simp only [totalAt_append, totalAt_cons, totalAt_nil, htaker, hmaker, hheld, hdrop]
    by_cases hid : t.orderId = id <;> by_cases hr : r.book.Rests t q <;> simp [hid, hr] <;> omega
  · rcases List.mem_append.1 hd with hd | hd
    · obtain ⟨o, ho, h1, h2⟩ := h.reserved d hd hne
      exact ⟨o, hold ho, h1, h2⟩
    · rw [List.mem_singleton.1 hd] at hne ⊢
      refine ⟨_, hself, rfl, ?_⟩
      by_contra hc
      rw [not_or] at hc
      have hnonneg : 0 ≤ r.book.remainder t q := nodeLots.unmet_nonneg hq.le _
      simp only [hdrop] at hne
      by_cases hr : r.book.Rests t q
      · rw [if_pos hr] at hne
        exact hne rfl
      · rw [if_neg hr] at hne
        exact hr ⟨by omega, hc.1, hc.2⟩
  · rcases List.mem_append.1 htr with htr | htr
    · obtain ⟨h1, h2, tk, htk, mk, hmk, hb⟩ := h.trades tr htr
      exact ⟨h1, h2, tk, hold htk, mk, hold hmk, hb⟩
    · rw [hts] at htr
      obtain ⟨f, hf, rfl⟩ := List.mem_map.1 htr
      have hfill := List.fst_mem_of_mem_zipIdx hf
      obtain ⟨hmem, hcross, hpos⟩ := h.ok.mem_fills hq.le hfill
      have hnode : f.1.1 ∈ r.book.nodes := (mem_nodes t.side).2 (Or.inl hmem)
      obtain ⟨o, ho, h1, h2, h3⟩ := h.resting f.1.1 hnode
      have hside := (h.ok.node_ok hmem).1.side_eq
      refine ⟨hpos, (h.ok.not_resting ha.2.1 f.1.1 hnode).symm, _, hself, o, hold ho, rfl, h1, ?_, h3.symm, hcross⟩
      rw [h2, hside, Side.opposite_opposite]

/-- Cancelling an order. -/
theorem Conserved.cancel {r : Run} (h : r.Conserved) {id : Int} {b' : LimitOrderBook}
    (ha : r.book.orderIdMap id ≠ none) (hc : r.book.Cancelled id b') :
    Conserved { r with book := b', cancelled := r.cancelled ++ [(id, r.book.restingQuantity id)] } := by
  refine ⟨hc.ok h.ok ha, h.nodup, fun n hn => ?_, fun id' => ?_, h.reserved, h.trades⟩
  · rw [hc.nodes_eq] at hn
    exact h.resting n (List.mem_of_mem_filter hn)
  · have htotal := h.total id'
    have hheld := hc.held id'
    simp only [totalAt_append, totalAt_cons, totalAt_nil, h.ok.restingQuantity_eq id, hheld]
    by_cases hid : id' = id
    · subst hid
      simp
      omega
    · simp [hid, Ne.symm hid]
      omega

/-- One call keeps the invariant. -/
theorem Conserved.step {r r' : Run} {e : Call × (Nat → Stamp)} (h : r.Conserved) (ha : r.Allows e)
    (hs : r.step e = some r') : r'.Conserved := by
  obtain ⟨c, draw⟩ := e
  obtain ⟨hadm, hnew⟩ := ha
  unfold Run.step at hs
  cases hrun : c.run draw r.book with
  | error f => simp [hrun] at hs
  | ok p =>
    obtain ⟨b', ts⟩ := p
    simp only [hrun] at hs
    cases c with
    | add orderId price quantity side brokerId =>
      cases hs
      exact h.add (t := ⟨orderId, price, side, brokerId⟩) hadm hnew hrun
    | cancel orderId =>
      cases hs
      obtain ⟨b₁, heq, hc⟩ := h.ok.cancelOrder_eq hadm
      simp only [Call.run, heq] at hrun
      cases hrun
      exact h.cancel hadm hc

/-- The states that runs without repeated ids pass through. -/
abbrev Reachable (ticker : String) : Run → Prop := Reach step Allows (start ticker)

private theorem conserved_of_reachable {ticker : String} {r : Run} (h : Reachable ticker r) : r.Conserved :=
  h.invariant (start_conserved ticker) fun _ _ _ hi ha hs => hi.step ha hs

/-- Nothing of an order is lost, only market prices are dropped, and every trade is a fair one. -/
structure ConservesQuantities (r : Run) : Prop where
  orders : ∀ o ∈ r.orders, o.quantity =
    totalAt Trade.takerOrderId Trade.quantity r.trades o.taker.orderId +
      totalAt Trade.makerOrderId Trade.quantity r.trades o.taker.orderId +
      r.book.restingQuantity o.taker.orderId + totalAt Prod.fst Prod.snd r.cancelled o.taker.orderId +
      totalAt Prod.fst Prod.snd r.discarded o.taker.orderId
  discarded : ∀ o ∈ r.orders, totalAt Prod.fst Prod.snd r.discarded o.taker.orderId ≠ 0 →
    o.taker.price = 2147483647 ∨ o.taker.price = -2147483648
  trades : ∀ tr ∈ r.trades, 0 < tr.quantity ∧ tr.takerOrderId ≠ tr.makerOrderId ∧
    ∃ taker ∈ r.orders, ∃ maker ∈ r.orders, tr.Between taker.taker maker.taker

/-- In every run the quantity of every order is accounted for. -/
theorem conservesQuantities_of_reachable (ticker : String) (r : Run) (h : Reachable ticker r) :
    r.ConservesQuantities := by
  have hc := conserved_of_reachable h
  refine ⟨fun o ho => ?_, fun o ho hne => ?_, hc.trades⟩
  · have htotal := hc.total o.taker.orderId
    have hown : totalAt (fun o => o.taker.orderId) Added.quantity r.orders o.taker.orderId = o.quantity :=
      totalAt_of_mem hc.nodup ho
    rw [hown] at htotal
    rw [hc.ok.restingQuantity_eq]
    exact htotal
  · -- some entry of this id is not zero, and it was made for an order at a reserved price
    obtain ⟨d, hd, hid, hd0⟩ : ∃ d ∈ r.discarded, d.1 = o.taker.orderId ∧ d.2 ≠ 0 := by
      by_contra hcon
      refine hne (List.sum_eq_zero fun x hx => ?_)
      obtain ⟨d, hd, rfl⟩ := List.mem_map.1 hx
      split
      · rename_i hid
        by_contra h0
        exact hcon ⟨d, hd, hid, h0⟩
      · rfl
    obtain ⟨o', ho', hid', hp⟩ := hc.reserved d hd hd0
    have hsame : o' = o := List.inj_on_of_nodup_map hc.nodup ho' ho (hid'.trans hid)
    rw [← hsame]
    exact hp

/-- A market bid takes what rests and drops three, another order is filled in part and cancelled. -/
def sampleRun : List (Call × (Nat → Stamp)) :=
  [(.add 0 103 4 .ask "bob", fun _ => .zero), (.add 1 2147483647 7 .bid "ann", fun _ => .zero),
    (.add 2 100 9 .bid "cat", fun _ => .zero), (.add 3 100 2 .ask "bob", fun _ => .zero), (.cancel 2, fun _ => .zero)]

theorem conservesQuantities_sampleRun : ∃ r, Reachable "GME" r ∧ r.trades.map Trade.quantity = [4, 2] ∧
    r.cancelled = [(2, 7)] ∧ r.discarded = [(0, 0), (1, 3), (2, 0), (3, 0)] ∧ r.ConservesQuantities := by
  have hrun : (execIf step Allows (start "GME") sampleRun).any (fun r =>
      decide (r.trades.map Trade.quantity = [4, 2] ∧ r.cancelled = [(2, 7)] ∧
        r.discarded = [(0, 0), (1, 3), (2, 0), (3, 0)])) = true := by decide +kernel
  obtain ⟨r, hreach, h⟩ := Reach.exists_of_execIf hrun
  obtain ⟨h1, h2, h3⟩ := of_decide_eq_true h
  exact ⟨r, hreach, h1, h2, h3, conservesQuantities_of_reachable "GME" r hreach⟩

end Run

end LimitOrderBook

end Elsa
