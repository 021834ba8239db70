import Elsa.Engine.BookInvariant

/-!
# Cancelling an order

A side of a book is determined by its queue (`eq_of_queueOf_eq`), so what `cancel_order` does to the two maps can be
read off the queues: the level of the order loses this order, and the other levels stay as they are
(`Cancelled.removesOne`).  An order that was added without a trade stands in the queue of its side alone, and
cancelling it gives the queues back as they were (`Matched.cancelled_queue`).
-/

namespace Elsa

open Base

namespace LimitOrderBook

/-! ### Levels and queues -/

/-- Well-formed sides with the same queue are equal. -/
theorem eq_of_queueOf_eq {s : Side} {m m' : SideContainer} (h : SideOk s m) (h' : SideOk s m')
    (heq : queueOf s m = queueOf s m') : m = m' := by
  refine SortedMap.eq_of_find?_eq fun p => ?_
  rw [find?_eq_filter h, find?_eq_filter h', heq]

/-- One order is gone from its level, and nothing else has changed. -/
structure RemovesOne (b : LimitOrderBook) (id : Int) (b' : LimitOrderBook) : Prop where
  level_eq : ∃ s p before n after, n.order.orderId = id ∧ (b.getSide s).find? p = some (before ++ n :: after) ∧
    (b'.getSide s).find? p = (if before ++ after = [] then none else some (before ++ after)) ∧
    ∀ s' p', ¬ (s' = s ∧ p' = p) → (b'.getSide s').find? p' = (b.getSide s').find? p'
  index_eq : b'.orderIdMap = eraseId b.orderIdMap id
  ticker_eq : b'.ticker = b.ticker

/-- The ids of a queue are not repeated. -/
private theorem Ok.queue_ids_nodup {b : LimitOrderBook} (h : b.Ok) (s : Side) :
    ((b.queue s).map fun n => n.order.orderId).Nodup := by
  have hnd := h.indexed.keys_nodup
  rw [slots, List.map_map, ((b.nodes_perm s).map _).nodup_iff, List.map_append] at hnd
  exact (List.nodup_append.1 hnd).2.1

/-- A level after a cancellation is the old one without the id. -/
private theorem Cancelled.find?_eq {b b' : LimitOrderBook} {id : Int} (hc : b.Cancelled id b') (s : Side) (p : Int) :
    (b'.getSide s).find? p =
      (let l := ((b.queue s).filter fun x => x.order.price = p).filter fun x => x.order.orderId ≠ id
      if l = [] then none else some l) := by
  have hqueue : queueOf s (b'.getSide s) = (b.queue s).filter fun x => x.order.orderId ≠ id := hc.queue_eq s
  rw [find?_eq_filter (hc.side_ok s)]
  simp only [hqueue, List.filter_filter, Bool.and_comm]

/-- An order rests on one side and at one price only. -/
private theorem Ok.filter_elsewhere {b : LimitOrderBook} (h : b.Ok) {s s' : Side} {n : Node} {p' : Int}
    (hn : n ∈ b.queue s) (hne : ¬ (s' = s ∧ p' = n.order.price)) :
    ((b.queue s').filter fun x => x.order.price = p').filter (fun x => x.order.orderId ≠ n.order.orderId) =
      (b.queue s').filter fun x => x.order.price = p' := by
  refine List.filter_eq_self.2 fun x hx => decide_eq_true fun hxid => hne ?_
  obtain ⟨hxq, hxp⟩ := List.mem_filter.1 hx
  have hxn : x = n := (h.node_unique ((mem_nodes s').2 (Or.inr hxq)) ((mem_nodes s).2 (Or.inr hn))).2 hxid
  subst hxn
  exact ⟨(h.node_ok hxq).1.side_eq.symm.trans (h.node_ok hn).1.side_eq, (of_decide_eq_true hxp).symm⟩

theorem Cancelled.removesOne {b b' : LimitOrderBook} {id : Int} (hc : b.Cancelled id b') (h : b.Ok)
    (hid : b.orderIdMap id ≠ none) : b.RemovesOne id b' := by
  obtain ⟨a, ha⟩ := Option.ne_none_iff_exists'.1 hid
  obtain ⟨n, hn, rfl, -⟩ := h.exists_node ha
  obtain ⟨s, hs⟩ : ∃ s, n ∈ b.queue s := by
    rcases List.mem_append.1 hn with hn | hn
    · exact ⟨_, hn⟩
    · exact ⟨_, hn⟩
  have hmem : n ∈ (b.queue s).filter fun x => x.order.price = n.order.price := List.mem_filter.2 ⟨hs, by simp⟩
  obtain ⟨before, after, hsplit⟩ := List.append_of_mem hmem
  have hnd : ((before ++ n :: after).map fun x => x.order.orderId).Nodup := by
    rw [← hsplit]
    exact (h.queue_ids_nodup s).sublist (List.filter_sublist.map _)
  refine ⟨⟨s, n.order.price, before, n, after, rfl, ?_, ?_, fun s' p' hne => ?_⟩, hc.index_eq, hc.ticker_eq⟩
  · rw [find?_eq_filter (h.side_ok s)]
    simp only [show queueOf s (b.getSide s) = b.queue s from rfl, hsplit]
    exact if_neg (by simp)
  · rw [hc.find?_eq]
    simp only [hsplit, filter_name_ne hnd]
  · rw [hc.find?_eq, find?_eq_filter (h.side_ok s')]
    simp only [h.filter_elsewhere hs hne]
    rfl

/-! ### Adding and cancelling -/

/-- If an order was added without a trade and cancelled, the queues are what they were. -/
theorem Matched.cancelled_queue {b b₁ b₂ : LimitOrderBook} {t : Taker} {q : Int} (hm : b.Matched t q b₁)
    (hc : b₁.Cancelled t.orderId b₂) (h : b.Ok) (hq : 0 < q) (hid : b.orderIdMap t.orderId = none)
    (hfills : b.fills t q = []) : ∀ s, b₂.queue s = b.queue s := by
  have hkeep : ∀ s, (b.queue s).filter (fun n => decide (n.order.orderId ≠ t.orderId)) = b.queue s := by
    intro s
    refine List.filter_eq_self.2 fun n hn => decide_eq_true ?_
    exact h.not_resting hid n ((LimitOrderBook.mem_nodes s).2 (Or.inr hn))
  have hreached : t.reached (b.queue t.side.opposite) = [] := by
    unfold fills at hfills
    cases hr : t.reached (b.queue t.side.opposite) with
    | nil => rfl
    | cons n ns =>
      rw [hr, Lots.allot, if_neg (by omega)] at hfills
      split at hfills <;> cases hfills
  intro s
  rw [hc.queue_eq]
  rcases s.eq_or_opposite t.side with rfl | rfl
  · rw [hm.near_queue]
    split
    · rw [enqueue, List.filter_append, List.filter_cons_of_neg (by simp [restingNode]), ← List.filter_append,
        List.takeWhile_append_dropWhile, hkeep]
    · exact hkeep _
  · have hfar : b₁.queue t.side.opposite = b.queue t.side.opposite := by
      have hsplit := t.reached_append_unreached (b.queue t.side.opposite)
      rw [hm.far_queue, hreached]
      rw [hreached] at hsplit
      exact hsplit
    rw [hfar, hkeep]

/-- Cancelling removes one order and nothing else, and undoes the addition of an order that did not trade. -/
theorem cancelOrder_removesOne (ticker : String) (b : LimitOrderBook) (h : Reachable ticker b) :
    (∀ id, b.orderIdMap id ≠ none → ∀ draw, ∃ b', (Call.cancel id).run draw b = .ok (b', []) ∧ b.RemovesOne id b') ∧
      ∀ orderId price quantity side brokerId, (Call.add orderId price quantity side brokerId).Admissible b →
        ∀ draw b₁, b.addOrder draw orderId price quantity side brokerId = .ok (b₁, []) →
          b₁.orderIdMap orderId ≠ none →
        ∃ b₂, b₁.cancelOrder orderId = .ok b₂ ∧ b₂.ticker = b.ticker ∧ b₂.bids = b.bids ∧ b₂.asks = b.asks ∧
          b₂.orderIdMap = b.orderIdMap := by
  have hok := ok_of_reach h
  refine ⟨fun id hid draw => ?_, fun orderId price quantity side brokerId ha draw b₁ hrun hrests => ?_⟩
  · obtain ⟨b', heq, hc⟩ := hok.cancelOrder_eq hid
    refine ⟨b', ?_, hc.removesOne hok hid⟩
    rw [Call.run, heq]
    rfl
  · have hq : 0 < quantity := ha.2.2.2.2.1
    have hfree : b.orderIdMap orderId = none := ha.2.1
    obtain ⟨hm, hok₁, -, hts⟩ := hok.addOrder_ok ha.takerOk hq hfree hrun
    have hfills : b.fills ⟨orderId, price, side, brokerId⟩ quantity = [] := by
      simpa using hts.symm
    obtain ⟨b₂, heq, hc⟩ := hok₁.cancelOrder_eq hrests
    have hqueue := hm.cancelled_queue hc hok hq hfree hfills
    have hside : ∀ s, b₂.getSide s = b.getSide s :=
      fun s => eq_of_queueOf_eq (hc.side_ok s) (hok.side_ok s) (hqueue s)
    refine ⟨b₂, heq, hc.ticker_eq.trans hm.ticker_eq, hside .bid, hside .ask, ?_⟩
    funext id
    rw [hc.index_eq, eraseId, Function.update_apply]
    split
    · rename_i heq
      rw [heq]
      exact hfree.symm
    · rename_i hne
      rw [hm.index_eq, if_neg (fun hr => hne hr.2), hfills]
      rfl

/-- The second of three bids at 100 is cancelled. -/
theorem cancelOrder_sampleBids : ∃ b b', Reachable "GME" b ∧ (Call.cancel 1).run (fun _ => .zero) b = .ok (b', []) ∧
    b.RemovesOne 1 b' ∧ nodesOf b'.bids = [⟨0, ⟨0, 100, 5, .bid, "ann"⟩⟩, ⟨2, ⟨2, 100, 7, .bid, "ann"⟩⟩] := by
  have hrun : (execIf Call.step (fun b e => e.1.Admissible b) (new "GME")
      [(.add 0 100 5 .bid "ann", fun _ => .zero), (.add 1 100 6 .bid "bob", fun _ => .zero),
        (.add 2 100 7 .bid "ann", fun _ => .zero)]).any (fun b => decide (b.orderIdMap 1 ≠ none) &&
      (((Call.cancel 1).run (fun _ => .zero) b).toOption.any fun r =>
        decide (nodesOf r.1.bids = [⟨0, ⟨0, 100, 5, .bid, "ann"⟩⟩, ⟨2, ⟨2, 100, 7, .bid, "ann"⟩⟩]))) = true := by
          decide +kernel
  obtain ⟨b, hreach, hcheck⟩ := Reach.exists_of_execIf hrun
  rw [Bool.and_eq_true, decide_eq_true_eq] at hcheck
  obtain ⟨b', hcancel, hremoves⟩ := (cancelOrder_removesOne "GME" b hreach).1 1 hcheck.1 (fun _ => .zero)
  refine ⟨b, b', hreach, hcancel, hremoves, ?_⟩
  have hnodes := hcheck.2
  rw [hcancel] at hnodes
  exact of_decide_eq_true hnodes

end LimitOrderBook

end Elsa
