import Elsa.Engine.FillCost

/-!
# The published snapshot

`get_top_order_book_level_aggregate` fills two arrays of fixed length with the aggregates of the best levels.  Each
loop writes a first part of its array (`topLevelsLoop_eq`); this part lists the best levels of the side with their
quantities (`isTop_topLevels`), and the rest of the array stays zero.
-/

namespace Elsa

open Base

namespace LimitOrderBook

/-- A level as it is published. -/
def aggregateOf (e : Int × List Node) : LevelAggregate := ⟨e.1, quantityOf e.2⟩

/-- The best levels of a side as they are published. -/
def topLevels (b : LimitOrderBook) (s : Side) : List LevelAggregate :=
  ((levelsOf s (b.getSide s)).take orderBookAggregateLevels).map aggregateOf

/-- The array starts with the best price levels of the side, from best to worst, each with the quantity that rests
there; the other entries are zero. -/
structure IsTop (b : LimitOrderBook) (s : Side) (aggregates : List LevelAggregate) : Prop where
  length_eq : aggregates.length = 50
  entries : ∃ top, aggregates = top ++ List.replicate (50 - top.length) ⟨0, 0⟩ ∧
    top.length = min 50 (b.getSide s).size ∧ top.Pairwise (fun x y => s.Better x.price y.price) ∧
    (∀ x ∈ top, ∃ orders, (b.getSide s).find? x.price = some orders ∧
    x.quantity = (orders.map fun n => n.order.quantity).sum) ∧
    ∀ p orders, (b.getSide s).find? p = some orders → (∃ x ∈ top, x.price = p) ∨ ∀ x ∈ top, s.Better x.price p

private theorem getLevelAggregate_exact {b : LimitOrderBook} {s : Side} (hok : SideOk s (b.getSide s)) {i : Nat}
    {e : Int × List Node} (hget : (levelsOf s (b.getSide s))[i]? = some e) :
    b.getLevelAggregate .exact s i = .ok (aggregateOf e) :=
  getLevelAggregate_eq (fun _ _ _ => rfl) hok hget (le_refl _)

/-- Writing at the first free position. -/
private theorem set_append_replicate {α : Type} (xs : List α) (x d : α) (n : Nat) :
    (xs ++ List.replicate (n + 1) d).set xs.length x = xs ++ [x] ++ List.replicate n d := by
  rw [List.set_append_right _ _ (le_refl _), Nat.sub_self, List.replicate_succ, List.set_cons_zero, List.append_assoc]
  rfl

/-- The loop from level `i` on, when the levels before have been written. -/
theorem topLevelsLoop_eq {b : LimitOrderBook} {s : Side} (hok : SideOk s (b.getSide s)) (n : Nat) :
    ∀ i (written : List LevelAggregate), written.length = i →
      b.topLevelsLoop .exact s n i (written ++ List.replicate n .default) =
        .ok (written ++ (((levelsOf s (b.getSide s)).drop i).take n).map aggregateOf ++
          List.replicate (n - ((levelsOf s (b.getSide s)).drop i).length) .default) := by
  induction n with
  | zero =>
    intro i written _
    simp [topLevelsLoop]
  | succ n ih =>
    rintro i written rfl
    rw [topLevelsLoop]
    by_cases hi : written.length < (b.getSide s).size
    · have hi' : written.length < (levelsOf s (b.getSide s)).length := by rw [levelsOf_length]; exact hi
      have hdrop := List.drop_eq_getElem_cons hi'
      have hbound : written.length < (written ++ List.replicate (n + 1) LevelAggregate.default).length := by simp
      rw [if_pos hi, getLevelAggregate_exact hok (List.getElem?_eq_getElem hi'), ok_bind, require_of hbound, ok_bind,
        set_append_replicate, ih (written.length + 1)
        (written ++ [aggregateOf (levelsOf s (b.getSide s))[written.length]]) (by simp), hdrop, List.take_succ_cons,
          List.map_cons, List.length_cons, Nat.add_sub_add_right]
      simp only [List.append_assoc, List.cons_append, List.nil_append]
    · have hnil : (levelsOf s (b.getSide s)).drop written.length = [] := by
        rw [List.drop_eq_nil_iff, levelsOf_length]
        omega
      rw [if_neg hi, hnil]
      simp

private theorem topLevelsLoop_all {b : LimitOrderBook} {s : Side} (hok : SideOk s (b.getSide s)) :
    b.topLevelsLoop .exact s orderBookAggregateLevels 0 (List.replicate orderBookAggregateLevels .default) =
      .ok (b.topLevels s ++ List.replicate (orderBookAggregateLevels - (b.topLevels s).length) .default) := by
  have h := topLevelsLoop_eq hok orderBookAggregateLevels 0 [] rfl
  rw [List.nil_append, List.nil_append, List.drop_zero] at h
  rw [h]
  have hlen : (b.topLevels s).length = min orderBookAggregateLevels (levelsOf s (b.getSide s)).length := by
    simp [topLevels]
  rw [hlen, ← topLevels]
  congr 3
  omega

/-- What the loop writes is the top of the book. -/
theorem isTop_topLevels (b : LimitOrderBook) (s : Side) :
    b.IsTop s (b.topLevels s ++ List.replicate (orderBookAggregateLevels - (b.topLevels s).length) .default) := by
  have hlen : (b.topLevels s).length = min 50 (b.getSide s).size := by
    rw [topLevels, List.length_map, List.length_take, levelsOf_length]
    rfl
  have hsorted := levelsOf_sorted s (b.getSide s)
  refine ⟨?_, b.topLevels s, rfl, hlen, ?_, fun x hx => ?_, fun p orders hf => ?_⟩
  · rw [List.length_append, List.length_replicate, hlen]
    show min 50 _ + (50 - min 50 _) = 50
    omega
  · exact List.pairwise_map.2 (hsorted.sublist (List.take_sublist _ _))
  · obtain ⟨e, he, rfl⟩ := List.mem_map.1 hx
    exact ⟨e.2, SortedMap.find?_eq_some_iff.2 (mem_levelsOf.1 (List.mem_of_mem_take he)), rfl⟩
  · -- a level is among the first ones, or behind all of them
    have hmem : (p, orders) ∈ levelsOf s (b.getSide s) := mem_levelsOf.2 (SortedMap.find?_eq_some_iff.1 hf)
    rw [← List.take_append_drop orderBookAggregateLevels (levelsOf s (b.getSide s))] at hmem hsorted
    rcases List.mem_append.1 hmem with hfirst | hlater
    · exact Or.inl ⟨aggregateOf (p, orders), List.mem_map.2 ⟨_, hfirst, rfl⟩, rfl⟩
    · refine Or.inr fun x hx => ?_
      obtain ⟨e, he, rfl⟩ := List.mem_map.1 hx
      exact (List.pairwise_append.1 hsorted).2.2 e he (p, orders) hlater

/-- An entry of the snapshot that is not zero is a level of the book. -/
theorem IsTop.head {b : LimitOrderBook} {s : Side} {aggregates : List LevelAggregate} (h : b.IsTop s aggregates)
    {x : LevelAggregate} (hx : aggregates.head? = some x) (hne : x ≠ ⟨0, 0⟩) :
    ∃ orders, (x.price, orders) ∈ (b.getSide s).entries := by
  obtain ⟨top, rfl, -, -, hlevels, -⟩ := h.entries
  cases top with
  | nil =>
    rw [List.nil_append, List.head?_replicate] at hx
    cases hx
    exact absurd rfl hne
  | cons y top =>
    cases hx
    obtain ⟨orders, hf, -⟩ := hlevels x List.mem_cons_self
    exact ⟨orders, SortedMap.find?_eq_some_iff.1 hf⟩

/-- The prices of two levels on different sides. -/
private theorem Ok.level_uncrossed {b : LimitOrderBook} (h : b.Ok) {p p' : Int} {l l' : List Node}
    (hbid : (p, l) ∈ b.bids.entries) (hask : (p', l') ∈ b.asks.entries) : p < p' := by
  obtain ⟨m, ms, rfl⟩ := List.exists_cons_of_ne_nil ((h.side_ok .bid).level_ne _ hbid)
  obtain ⟨n, ns, rfl⟩ := List.exists_cons_of_ne_nil ((h.side_ok .ask).level_ne _ hask)
  have hm : m ∈ b.queue .bid := mem_queueOf.2 ⟨_, hbid, List.mem_cons_self⟩
  have hn : n ∈ b.queue .ask := mem_queueOf.2 ⟨_, hask, List.mem_cons_self⟩
  have hlt : m.order.price < n.order.price := h.uncrossed .bid m hm n hn
  rw [((h.side_ok .bid).node_ok _ hbid m List.mem_cons_self).price_eq,
    ((h.side_ok .ask).node_ok _ hask n List.mem_cons_self).price_eq] at hlt
  exact hlt

/-- The snapshot of a book fails only for a ticker that does not fit, and shows the top of both sides, which do not
cross. -/
theorem snapshot_isTop (ticker : String) (b : LimitOrderBook) (h : Reachable ticker b) (nowTsMs : Nat) :
    ∃ bids asks, b.getTopOrderBookLevelAggregate .exact nowTsMs = (do
        require (FitsField b.ticker maxTickerLength) .assertion
        return ⟨CString.upToNul b.ticker, bids, asks, nowTsMs⟩) ∧
      b.IsTop .bid bids ∧ b.IsTop .ask asks ∧
      ∀ x y, bids.head? = some x → asks.head? = some y → x ≠ ⟨0, 0⟩ → y ≠ ⟨0, 0⟩ → x.price < y.price := by
  have hok := ok_of_reach h
  refine ⟨_, _, ?_, b.isTop_topLevels .bid, b.isTop_topLevels .ask, fun x y hx hy hx0 hy0 => ?_⟩
  · rw [getTopOrderBookLevelAggregate]
    by_cases hfit : FitsField b.ticker maxTickerLength
    · rw [require_of hfit, TopOrderBookLevelAggregates.make_of_fits hfit]
      simp only [ok_bind]
      rw [topLevelsLoop_all (hok.side_ok .bid), topLevelsLoop_all (hok.side_ok .ask)]
      rfl
    · rw [require_of_not hfit, TopOrderBookLevelAggregates.make_of_not_fits hfit]
      rfl
  · obtain ⟨l, hbid⟩ := (b.isTop_topLevels .bid).head hx hx0
    obtain ⟨l', hask⟩ := (b.isTop_topLevels .ask).head hy hy0
    exact hok.level_uncrossed hbid hask

/-- Three asks on two levels and one bid. -/
theorem snapshot_quotedCalls :
    ∃ b aggregates, Reachable "GME" b ∧ b.getTopOrderBookLevelAggregate .exact 7 = .ok aggregates ∧
    b.IsTop .ask aggregates.askLevelAggregates ∧ aggregates.askLevelAggregates.take 3 =
      [⟨101, 7⟩, ⟨103, 4⟩, ⟨0, 0⟩] := by
  have hrun : (execIf Call.step (fun b e => e.1.Admissible b) (new "GME")
      (quotedCalls ++ [(.add 4 99 3 .bid "dan", fun _ => .zero)])).any (fun b =>
        (b.getTopOrderBookLevelAggregate .exact 7).toOption.any fun a =>
          decide (FitsField b.ticker maxTickerLength ∧ a.askLevelAggregates.take 3 =
            [⟨101, 7⟩, ⟨103, 4⟩, ⟨0, 0⟩])) = true := by
    decide +kernel
  obtain ⟨b, hreach, hcheck⟩ := Reach.exists_of_execIf hrun
  obtain ⟨bids, asks, heq, -, hasks, -⟩ := snapshot_isTop "GME" b hreach 7
  rw [heq] at hcheck
  by_cases hfit : FitsField b.ticker maxTickerLength
  · rw [require_of hfit] at heq hcheck
    exact ⟨b, _, hreach, heq, hasks, (of_decide_eq_true hcheck).2⟩
  · rw [require_of_not hfit] at hcheck
    cases hcheck

end LimitOrderBook

end Elsa
