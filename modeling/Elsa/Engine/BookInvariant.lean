import Mathlib.Data.List.TakeWhile
import Elsa.Base.Index
import Elsa.Engine.Matching

/-!
# The representation invariant of the book

`LimitOrderBook.Ok` ties the three structures of a book together: both sides are well-formed, the index maps an id
to an address exactly when a resting node has this id and this address, ids and addresses are not repeated,
addresses were handed out before, and the sides do not cross.  `add_order` and `cancel_order` keep it (`Matched.ok`,
`Cancelled.ok`), so it holds along every sequence of admissible calls (`ok_of_reach`), and with it the invariant
that the book documents, `RepInvariant`.
-/

namespace Elsa

open Base

/-- What the index knows of a node. -/
def Node.slot (n : Node) : Int × Nat := (n.order.orderId, n.addr)

/-- An allotment removes a prefix of the makers from the index and from the queue. -/
private theorem filled_split {q : Int} (hq : 0 ≤ q) (R : List Node) :
    ∃ ys zs, R = ys ++ zs ∧
      (∀ {γ : Type} (g : Node → γ), (∀ n k, g (n.cut k) = g n) → (nodeLots.leftover q R).map g = zs.map g) ∧
      ∀ ix id, eraseFilled ix (nodeLots.allot q R) id = if id ∈ ys.map (fun n => n.order.orderId) then
      none else ix id := by
  have hwhole : ∀ (ys : List Node) (id : Int), (∃ f ∈ ys.map nodeLots.whole, f.1.order.orderId = id ∧
      f.2 = f.1.order.quantity) ↔ id ∈ ys.map (fun n => n.order.orderId) := by
    intro ys id
    simp only [List.mem_map, exists_exists_and_eq_and, Lots.whole]
    exact ⟨fun ⟨n, hn, h, _⟩ => ⟨n, hn, h⟩, fun ⟨n, hn, h⟩ => ⟨n, hn, h, rfl⟩⟩
  -- the makers `ys` are used up; the first of `zs` may be cut, and keeps its id and address
  obtain ⟨ys, zs, hR, h | ⟨z, zs', k, hz, -, hk, h4, h5, -⟩⟩ := nodeLots.allot_cases hq R
  · refine ⟨ys, zs, hR, fun g _ => by rw [h.2.1], fun ix id => ?_⟩
    rw [eraseFilled_apply, h.1]
    simp only [hwhole]
  · refine ⟨ys, zs, hR, fun g hg => ?_, fun ix id => ?_⟩
    · rw [h5, hz, List.map_cons, List.map_cons]
      exact congrArg (· :: _) (hg z k)
    · -- the maker that is cut keeps its index entry
      have hcut : (∃ f ∈ ys.map nodeLots.whole ++ [(z, k)], f.1.order.orderId = id ∧ f.2 = f.1.order.quantity) ↔
          id ∈ ys.map (fun n => n.order.orderId) := by
        rw [← hwhole]
        constructor
        · rintro ⟨f, hf, h1, h2⟩
          rcases List.mem_append.1 hf with hf | hf
          · exact ⟨f, hf, h1, h2⟩
          · obtain rfl := List.mem_singleton.1 hf
            have hk' : k < z.order.quantity := hk
            simp only at h2
            omega
        · rintro ⟨f, hf, h⟩
          exact ⟨f, List.mem_append_left _ hf, h⟩
      rw [eraseFilled_apply, h4]
      simp only [hcut]

namespace LimitOrderBook

/-- The resting nodes. -/
def nodes (b : LimitOrderBook) : List Node := b.queue .bid ++ b.queue .ask

theorem nodes_perm (b : LimitOrderBook) (s : Side) : b.nodes.Perm (b.queue s.opposite ++ b.queue s) := by
  cases s with
  | ask => exact List.Perm.refl _
  | bid => exact List.perm_append_comm

theorem mem_nodes {b : LimitOrderBook} {n : Node} (s : Side) :
    n ∈ b.nodes ↔ n ∈ b.queue s.opposite ∨ n ∈ b.queue s := by
  rw [(b.nodes_perm s).mem_iff, List.mem_append]

/-- The resting slots. -/
def slots (b : LimitOrderBook) : List (Int × Nat) := b.nodes.map Node.slot

/-- A consistent book. -/
structure Ok (b : LimitOrderBook) : Prop where
  side_ok : ∀ s, SideOk s (b.getSide s)
  indexed : Indexed b.orderIdMap b.slots b.nextNode
  uncrossed : ∀ s, ∀ m ∈ b.queue s, ∀ n ∈ b.queue s.opposite, s.opposite.Better m.order.price n.order.price

theorem new_ok (ticker : String) : (new ticker).Ok where
  side_ok s := by cases s <;> exact SideOk.empty _
  indexed := Indexed.nil 0
  uncrossed s m hm := by cases s <;> cases hm

private theorem uncrossed_of_side {b : LimitOrderBook} (s : Side)
    (h : ∀ m ∈ b.queue s, ∀ n ∈ b.queue s.opposite, s.opposite.Better m.order.price n.order.price) :
    ∀ s', ∀ m ∈ b.queue s', ∀ n ∈ b.queue s'.opposite, s'.opposite.Better m.order.price n.order.price := by
  intro s' m hm n hn
  rcases s'.eq_or_opposite s with rfl | rfl
  · exact h m hm n hn
  · rw [Side.opposite_opposite] at hn ⊢
    have := h n hn m hm
    cases s <;> exact this

theorem Ok.node_ok {b : LimitOrderBook} (h : b.Ok) {s : Side} {n : Node} (hn : n ∈ b.queue s) :
    NodeOk s n.order.price n ∧ 0 < n.order.price ∧ n.order.price < marketBidOrderPrice :=
  node_ok_of_mem (h.side_ok s) hn

theorem Ok.not_resting {b : LimitOrderBook} (h : b.Ok) {id : Int} (hid : b.orderIdMap id = none) :
    ∀ n ∈ b.nodes, n.order.orderId ≠ id := by
  rintro n hn rfl
  exact h.indexed.free_iff.1 hid (by rw [slots, List.map_map]; exact List.mem_map.2 ⟨n, hn, rfl⟩)

end LimitOrderBook

private theorem Taker.not_crosses_iff_better (t : Taker) (p : Int) :
    ¬ t.Crosses p ↔ t.side.opposite.Better t.price p := by
  unfold Taker.Crosses
  cases t.side <;> simp [Side.Better, Side.opposite]

/-- Behind the makers that a taker reaches stand only makers whose price it does not cross. -/
private theorem Taker.not_crosses_unreached {t : Taker} {m : SideContainer} (h : SideOk t.side.opposite m) {n : Node}
    (hn : n ∈ t.unreached (LimitOrderBook.queueOf t.side.opposite m)) : ¬ t.Crosses n.order.price := by
  have hs : (LimitOrderBook.queueOf t.side.opposite m).Pairwise
      (fun x y => decide (t.Crosses y.order.price) = true → decide (t.Crosses x.order.price) = true) :=
    (LimitOrderBook.queueOf_sorted h).imp fun hb hc => by
      rw [decide_eq_true_eq] at hc ⊢
      exact hc.of_better hb
  simpa using not_of_mem_dropWhile hs hn

namespace LimitOrderBook

/-! ### `add_order` -/

/-- The makers of an order rest on the far side at prices it crosses. -/
theorem Ok.mem_fills {b : LimitOrderBook} (h : b.Ok) {t : Taker} {q : Int} (hq : 0 ≤ q) {f : Node × Int}
    (hf : f ∈ b.fills t q) : f.1 ∈ b.queue t.side.opposite ∧ t.Crosses f.1.order.price ∧ 0 < f.2 := by
  have hsub : ∀ n ∈ t.reached (b.queue t.side.opposite), n ∈ b.queue t.side.opposite :=
    fun n hn => (List.takeWhile_prefix _).subset hn
  obtain ⟨hmem, hpos, -⟩ := nodeLots.mem_allot hq (fun n hn => (h.node_ok (hsub n hn)).1.quantity_pos) hf
  have hcross := List.mem_takeWhile_imp hmem
  exact ⟨hsub f.1 hmem, of_decide_eq_true hcross, hpos⟩

/-- The makers of an order, with the quantities they give, satisfy the contract of `create_trade`. -/
theorem Ok.tradable {b : LimitOrderBook} (h : b.Ok) {t : Taker} (ht : t.Ok) (hid : b.orderIdMap t.orderId = none)
    {q : Int} (hq : 0 ≤ q) : ∀ f ∈ b.fills t q, Tradable t f.1.order f.2 := by
  intro f hf
  obtain ⟨hmem, -, hpos⟩ := h.mem_fills hq hf
  obtain ⟨hok, hprice, -⟩ := h.node_ok hmem
  have hne := h.not_resting hid f.1 ((mem_nodes t.side).2 (Or.inl hmem))
  exact ⟨ht.id_nonneg, hok.id_nonneg, hne.symm, ht.broker_ne, hok.trader_ne, hprice, hpos⟩

/-- The index after a match: a prefix of the makers is gone, a remainder may have been added. -/
theorem Matched.indexed {b b' : LimitOrderBook} {t : Taker} {q : Int} (hm : b.Matched t q b') (h : b.Ok)
    (hid : b.orderIdMap t.orderId = none) (hq : 0 ≤ q) : Indexed b'.orderIdMap b'.slots b'.nextNode := by
  obtain ⟨ys, zs, hR, hleft, hix⟩ := filled_split hq (t.reached (b.queue t.side.opposite))
  let kept := (zs ++ t.unreached (b.queue t.side.opposite) ++ b.queue t.side).map Node.slot
  have hperm : b.slots.Perm (ys.map Node.slot ++ kept) := by
    have := (b.nodes_perm t.side).map Node.slot
    rw [← t.reached_append_unreached (b.queue t.side.opposite), hR] at this
    simpa [slots, kept, List.append_assoc] using this
  have hslot := hleft Node.slot (fun _ _ => rfl)
  have herase : Indexed (eraseFilled b.orderIdMap (b.fills t q)) kept b.nextNode :=
    h.indexed.erase hperm fun id => by rw [fills, hix, List.map_map]; rfl
  have hperm' : b'.slots.Perm ((b'.queue t.side.opposite ++ b'.queue t.side).map Node.slot) :=
    (b'.nodes_perm t.side).map Node.slot
  rw [hm.far_queue, hm.near_queue] at hperm'
  rw [hm.nextNode_eq]
  -- first the filled makers leave the index, then a remainder is entered under a new address
  by_cases hr : b.Rests t q
  · rw [if_pos hr] at hperm' ⊢
    have hfree : t.orderId ∉ kept.map Prod.fst := by
      intro hmem
      refine h.indexed.free_iff.1 hid ((hperm.map Prod.fst).mem_iff.2 ?_)
      rw [List.map_append]
      exact List.mem_append_right _ hmem
    refine (herase.alloc hfree fun id => ?_).perm ?_
    · rw [hm.index_eq]; simp [hr]
    · refine List.Perm.trans ?_ hperm'.symm
      have henq := (enqueue_perm Node.price t.side (b.restingNode t q) (b.queue t.side)).map Node.slot
      simp only [List.map_append, hslot, kept]
      refine List.Perm.trans ?_ (List.Perm.append_left _ henq.symm)
      exact List.perm_middle.symm
  · rw [if_neg hr] at hperm' ⊢
    have hixe : b'.orderIdMap = eraseFilled b.orderIdMap (b.fills t q) := by
      funext id; rw [hm.index_eq]; simp [hr]
    rw [hixe]
    refine herase.perm (List.Perm.trans ?_ hperm'.symm)
    simp only [List.map_append, hslot, kept]
    exact List.Perm.refl _

/-- Matching does not leave the book crossed: what it leaves of the far side is out of the taker's reach. -/
theorem Matched.uncrossed {b b' : LimitOrderBook} {t : Taker} {q : Int} (hm : b.Matched t q b') (h : b.Ok)
    (hq : 0 ≤ q) :
    ∀ s, ∀ m ∈ b'.queue s, ∀ n ∈ b'.queue s.opposite, s.opposite.Better m.order.price n.order.price := by
  apply uncrossed_of_side t.side
  intro m hmem n hn
  rw [hm.far_queue] at hn
  rw [hm.near_queue] at hmem
  have hold : ∀ m ∈ b.queue t.side, t.side.opposite.Better m.order.price n.order.price := by
    intro m hmem
    rcases List.mem_append.1 hn with hn | hn
    · obtain ⟨ys, zs, hR, hleft, -⟩ := filled_split hq (t.reached (b.queue t.side.opposite))
      have hp : n.order.price ∈ zs.map (fun n => n.order.price) := by
        rw [← hleft (fun n => n.order.price) (fun _ _ => rfl)]
        exact List.mem_map.2 ⟨n, hn, rfl⟩
      obtain ⟨z, hz, hzp⟩ := List.mem_map.1 hp
      rw [← hzp]
      exact h.uncrossed t.side m hmem z ((List.takeWhile_prefix _).subset (by rw [← Taker.reached, hR]; simp [hz]))
    · exact h.uncrossed t.side m hmem n ((List.dropWhile_suffix _).subset hn)
  by_cases hr : b.Rests t q
  · rw [if_pos hr] at hmem
    rcases List.mem_cons.1 ((enqueue_perm _ _ _ _).mem_iff.1 hmem) with rfl | hmem
    · -- a remainder is left, so every maker within reach is gone
      have hnil := nodeLots.leftover_of_unmet_pos hq hr.1
      rw [hnil, List.nil_append] at hn
      exact (t.not_crosses_iff_better _).1 (Taker.not_crosses_unreached (h.side_ok _) hn)
    · exact hold m hmem
  · rw [if_neg hr] at hmem
    exact hold m hmem

theorem Matched.ok {b b' : LimitOrderBook} {t : Taker} {q : Int} (hm : b.Matched t q b') (h : b.Ok)
    (hid : b.orderIdMap t.orderId = none) (hq : 0 ≤ q) : b'.Ok where
  side_ok s := by
    rcases s.eq_or_opposite t.side with rfl | rfl
    · exact hm.near_ok
    · exact hm.far_ok
  indexed := hm.indexed h hid hq
  uncrossed := hm.uncrossed h hq

/-- After a match there are the old nodes, some of them cut, and perhaps a remainder. -/
theorem Matched.mem_nodes {b b' : LimitOrderBook} {t : Taker} {q : Int} (hm : b.Matched t q b') (hq : 0 ≤ q)
    {n : Node} (hn : n ∈ b'.nodes) : (∃ m ∈ b.nodes, ∃ k, n = m.cut k) ∨ (b.Rests t q ∧ n = b.restingNode t q) := by
  have hkeep : ∀ {m}, m ∈ b.nodes → ∃ m' ∈ b.nodes, ∃ k, m = m'.cut k :=
    fun {m} hmem => ⟨m, hmem, 0, (nodeLots.cut_zero m).symm⟩
  rcases (LimitOrderBook.mem_nodes t.side).1 hn with hn | hn
  · left
    rw [hm.far_queue] at hn
    have hfar : ∀ {m}, m ∈ b.queue t.side.opposite → m ∈ b.nodes :=
      fun hmem => (LimitOrderBook.mem_nodes t.side).2 (Or.inl hmem)
    rcases List.mem_append.1 hn with hn | hn
    · obtain ⟨m, hmem, k, rfl⟩ := nodeLots.mem_leftover hq hn
      exact ⟨m, hfar ((List.takeWhile_prefix _).subset hmem), k, rfl⟩
    · exact hkeep (hfar ((List.dropWhile_suffix _).subset hn))
  · rw [hm.near_queue] at hn
    have hnear : ∀ {m}, m ∈ b.queue t.side → m ∈ b.nodes :=
      fun hmem => (LimitOrderBook.mem_nodes t.side).2 (Or.inr hmem)
    split at hn
    · rename_i hr
      rcases List.mem_cons.1 ((enqueue_perm _ _ _ _).mem_iff.1 hn) with rfl | hn
      · exact Or.inr ⟨hr, rfl⟩
      · exact Or.inl (hkeep (hnear hn))
    · exact Or.inl (hkeep (hnear hn))

theorem Matched.index_none {b b' : LimitOrderBook} {t : Taker} {q : Int} (hm : b.Matched t q b') {id : Int}
    (h : b.orderIdMap id = none) (hne : id ≠ t.orderId) : b'.orderIdMap id = none := by
  rw [hm.index_eq, if_neg (fun hc => hne hc.2), eraseFilled_apply, h]
  split <;> rfl

/-- What a match leaves under an id: what was taken is missing, and a remainder is added for the taker. -/
theorem Matched.held {b b' : LimitOrderBook} {t : Taker} {q : Int} (hm : b.Matched t q b') (hq : 0 ≤ q) (id : Int) :
    totalAt nodeLots.key nodeLots.cap b'.nodes id = totalAt nodeLots.key nodeLots.cap b.nodes id - totalAt
      (fun f => nodeLots.key f.1) Prod.snd (b.fills t q) id +
      if b.Rests t q ∧ t.orderId = id then b.remainder t q else 0 := by
  have hfar : totalAt nodeLots.key nodeLots.cap (b'.queue t.side.opposite) id =
      totalAt nodeLots.key nodeLots.cap (b.queue t.side.opposite) id - totalAt (fun f => nodeLots.key f.1) Prod.snd
      (b.fills t q) id := by
    have hsplit := congrArg (totalAt nodeLots.key nodeLots.cap · id)
        (t.reached_append_unreached (b.queue t.side.opposite))
    simp only [totalAt_append] at hsplit
    rw [hm.far_queue, totalAt_append, nodeLots.totalAt_leftover hq, fills]
    omega
  have hnear : totalAt nodeLots.key nodeLots.cap (b'.queue t.side) id =
      totalAt nodeLots.key nodeLots.cap (b.queue t.side) id + if b.Rests t q ∧ t.orderId = id then
      b.remainder t q else 0 := by
    rw [hm.near_queue]
    by_cases hr : b.Rests t q
    · have hkey : nodeLots.key (b.restingNode t q) = t.orderId := rfl
      have hcap : nodeLots.cap (b.restingNode t q) = b.remainder t q := rfl
      rw [if_pos hr, totalAt_perm (enqueue_perm _ _ _ _), totalAt_cons, hkey, hcap]
      simp only [hr, true_and]
      omega
    · rw [if_neg hr, if_neg (fun hc => hr hc.1)]
      omega
  rw [totalAt_perm (b'.nodes_perm t.side), totalAt_perm (b.nodes_perm t.side), totalAt_append,
    totalAt_append, hfar, hnear]
  omega

/-! ### `cancel_order` -/

/-- The book that `cancel_order` leaves. -/
structure Cancelled (b : LimitOrderBook) (id : Int) (b' : LimitOrderBook) : Prop where
  ticker_eq : b'.ticker = b.ticker
  side_ok : ∀ s, SideOk s (b'.getSide s)
  queue_eq : ∀ s, b'.queue s = (b.queue s).filter (fun n => n.order.orderId ≠ id)
  index_eq : b'.orderIdMap = eraseId b.orderIdMap id
  nextNode_eq : b'.nextNode = b.nextNode

/-- A node is told apart by its address, and by its id. -/
theorem Ok.node_unique {b : LimitOrderBook} (h : b.Ok) {m n : Node} (hm : m ∈ b.nodes) (hn : n ∈ b.nodes) :
    (m.addr = n.addr → m = n) ∧ (m.order.orderId = n.order.orderId → m = n) := by
  have ha := h.indexed.addrs_nodup
  have hk := h.indexed.keys_nodup
  rw [slots, List.map_map] at ha hk
  exact ⟨fun he => List.inj_on_of_nodup_map ha hm hn he, fun he => List.inj_on_of_nodup_map hk hm hn he⟩

theorem Ok.exists_node {b : LimitOrderBook} (h : b.Ok) {id : Int} {a : Nat} (hid : b.orderIdMap id = some a) :
    ∃ n ∈ b.nodes, n.order.orderId = id ∧ n.addr = a := by
  obtain ⟨n, hn, hs⟩ := List.mem_map.1 ((h.indexed.index_iff id a).1 hid)
  exact ⟨n, hn, congrArg Prod.fst hs, congrArg Prod.snd hs⟩

theorem Ok.deref_eq {b : LimitOrderBook} (h : b.Ok) {n : Node} (hn : n ∈ b.nodes) : b.deref n.addr = some n := by
  have hperm : (nodesOf b.bids ++ nodesOf b.asks).Perm b.nodes :=
    (nodesOf_perm .bid b.bids).append (nodesOf_perm .ask b.asks)
  unfold deref
  cases hf : (nodesOf b.bids ++ nodesOf b.asks).find? (fun m => decide (m.addr = n.addr)) with
  | none => simpa using List.find?_eq_none.1 hf n (hperm.mem_iff.2 hn)
  | some m =>
    have hm := hperm.mem_iff.1 (List.mem_of_find?_eq_some hf)
    have hadr : m.addr = n.addr := by simpa using List.find?_some hf
    rw [(h.node_unique hm hn).1 hadr]

/-- `cancel_order` on a resting id takes its node out of its level. -/
theorem Ok.cancelOrder_eq {b : LimitOrderBook} (h : b.Ok) {id : Int} (hid : b.orderIdMap id ≠ none) :
    ∃ b', b.cancelOrder id = .ok b' ∧ b.Cancelled id b' := by
  obtain ⟨a, ha⟩ := Option.ne_none_iff_exists'.1 hid
  obtain ⟨n, hn, rfl, rfl⟩ := h.exists_node ha
  obtain ⟨s, hs⟩ : ∃ s, n ∈ b.queue s := by
    rcases List.mem_append.1 hn with hn | hn
    · exact ⟨_, hn⟩
    · exact ⟨_, hn⟩
  obtain ⟨e, he, hne⟩ := mem_queueOf.1 hs
  have hok := (h.side_ok s).node_ok e he n hne
  have hlevel : (b.getSide s).find? n.order.price = some e.2 := by
    rw [hok.price_eq]; exact SortedMap.find?_eq_some_iff.2 he
  let P : Node → Bool := fun m => decide (m.addr ≠ n.addr)
  let side' := if e.2.filter P = [] then (b.getSide s).erase n.order.price
    else (b.getSide s).insert n.order.price (e.2.filter P)
  refine ⟨{ b.setSide s side' with orderIdMap := eraseId b.orderIdMap n.order.orderId }, ?_, ?_⟩
  · unfold cancelOrder
    rw [require_of hid, ha]
    simp only [ok_bind, orFail_some, h.deref_eq hn, hok.side_eq, hlevel]
    rfl
  · have hget : ∀ s', getSide { b.setSide s side' with orderIdMap := eraseId b.orderIdMap n.order.orderId } s' =
        (b.setSide s side').getSide s' := getSide_congr rfl rfl
    -- `cancel_order` erases by address; ids and addresses are one to one, so this is erasing by id
    have hP : ∀ m ∈ b.nodes, P m = decide (m.order.orderId ≠ n.order.orderId) := by
      intro m hm
      have : m.addr = n.addr ↔ m.order.orderId = n.order.orderId :=
        ⟨fun hc => by rw [(h.node_unique hm hn).1 hc], fun hc => by rw [(h.node_unique hm hn).2 hc]⟩
      simp [P, this]
    have hother : ∀ e' ∈ (b.getSide s).entries, e'.1 ≠ n.order.price → ∀ m ∈ e'.2, P m = true := by
      intro e' he' hpe m hm
      have hmp := ((h.side_ok s).node_ok e' he' m hm).price_eq
      have hmn : m ≠ n := by rintro rfl; exact hpe hmp.symm
      have hmem : m ∈ b.nodes := (mem_nodes s).2 (Or.inr (mem_queueOf.2 ⟨e', he', hm⟩))
      simpa [P] using fun hc => hmn ((h.node_unique hmem hn).1 hc)
    refine ⟨by simp, fun s' => ?_, fun s' => ?_, rfl, by simp⟩
    · rw [hget]
      rcases s'.eq_or_opposite s with rfl | rfl
      · rw [getSide_setSide]
        by_cases hnil : e.2.filter P = []
        · simp only [side', if_pos hnil]; exact (h.side_ok s').erase _
        · simp only [side', if_neg hnil]
          have hpe := hok.price_eq
          refine (h.side_ok s').insert hnil (hpe ▸ (h.side_ok s').price_pos e he)
            (hpe ▸ (h.side_ok s').price_lt e he) fun m hm => ?_
          rw [hpe]
          exact (h.side_ok s').node_ok e he m (List.mem_of_mem_filter hm)
      · rw [getSide_setSide_opposite]; exact h.side_ok _
    · rw [queue, hget]
      rcases s'.eq_or_opposite s with rfl | rfl
      · rw [getSide_setSide, queueOf_filter hlevel hother]
        exact List.filter_congr fun m hm => hP m ((mem_nodes s').2 (Or.inr hm))
      · rw [getSide_setSide_opposite]
        refine (List.filter_eq_self.2 fun m hm => ?_).symm
        have hmem : m ∈ b.nodes := (mem_nodes s).2 (Or.inl hm)
        have hside := (h.node_ok hm).1.side_eq
        rw [← hP m hmem]
        refine decide_eq_true fun hc => ?_
        rw [(h.node_unique hmem hn).1 hc, hok.side_eq] at hside
        exact s.opposite_ne hside.symm

theorem Cancelled.nodes_eq {b b' : LimitOrderBook} {id : Int} (hc : b.Cancelled id b') :
    b'.nodes = b.nodes.filter (fun n => n.order.orderId ≠ id) := by
  rw [nodes, nodes, hc.queue_eq, hc.queue_eq, List.filter_append]

theorem Cancelled.held {b b' : LimitOrderBook} {id : Int} (hc : b.Cancelled id b') (id' : Int) :
    totalAt nodeLots.key nodeLots.cap b'.nodes id' = if id' = id then
    0 else totalAt nodeLots.key nodeLots.cap b.nodes id' := by
  rw [hc.nodes_eq]
  split
  · rename_i he
    subst he
    exact totalAt_eq_zero fun n hn => of_decide_eq_true (List.mem_filter.1 hn).2
  · rename_i hne
    rw [totalAt_filter]
    refine totalAt_congr fun n _ hn => if_pos ?_
    have hn' : n.order.orderId = id' := hn
    simpa [hn'] using hne

theorem Cancelled.indexed {b b' : LimitOrderBook} {id : Int} (hc : b.Cancelled id b') (h : b.Ok)
    (hid : b.orderIdMap id ≠ none) : Indexed b'.orderIdMap b'.slots b'.nextNode := by
  have hslots : b'.slots = b.slots.filter (fun x => ¬ x.1 = id) := by
    simp only [slots, nodes, hc.queue_eq, List.map_append, List.filter_append, List.filter_map]
    rfl
  have hperm := (List.filter_append_perm (fun x : Int × Nat => decide (x.1 = id)) b.slots).symm
  have hperm' : b.slots.Perm (b.slots.filter (fun x => x.1 = id) ++ b.slots.filter (fun x => ¬ x.1 = id)) := by
    simpa using hperm
  rw [hslots, hc.nextNode_eq, hc.index_eq]
  refine h.indexed.erase hperm' fun k => ?_
  have hmem : k ∈ (b.slots.filter (fun x => x.1 = id)).map Prod.fst ↔ k = id := by
    simp only [List.mem_map, List.mem_filter, decide_eq_true_eq]
    constructor
    · rintro ⟨x, ⟨-, hx⟩, rfl⟩; exact hx
    · rintro rfl
      have := mt h.indexed.free_iff.2 hid
      rw [not_not] at this
      obtain ⟨x, hx, hxk⟩ := List.mem_map.1 this
      exact ⟨x, ⟨hx, hxk⟩, hxk⟩
  simp only [hmem, eraseId, Function.update_apply]

theorem Cancelled.ok {b b' : LimitOrderBook} {id : Int} (hc : b.Cancelled id b') (h : b.Ok)
    (hid : b.orderIdMap id ≠ none) : b'.Ok where
  side_ok := hc.side_ok
  indexed := hc.indexed h hid
  uncrossed s m hm n hn := by
    rw [hc.queue_eq] at hm hn
    exact h.uncrossed s m (List.mem_of_mem_filter hm) n (List.mem_of_mem_filter hn)

/-! ### Runs -/

/-- `add_order` with an id that does not rest, for a taker that meets the contract. -/
theorem Ok.addOrder_eq {b : LimitOrderBook} (h : b.Ok) {t : Taker} (ht : t.Ok) {q : Int} (hq : 0 < q)
    (hid : b.orderIdMap t.orderId = none) :
    ∃ b', b.Matched t q b' ∧ b'.Ok ∧ ∀ draw, b.addOrder draw t.orderId t.price q t.side t.brokerId = (do
      let ts ← tradesFor draw b.ticker t 0 (b.fills t q)
      return (b', ts)) := by
  obtain ⟨b', hm, hrun⟩ := matchOrder_eq (h.side_ok t.side) (h.side_ok t.side.opposite) ht hq.le
  refine ⟨b', hm, hm.ok h hid hq.le, fun draw => ?_⟩
  rw [addOrder, require_of ⟨ht.id_nonneg, hid, ht.price_ok, hq, ht.broker_ne⟩]
  exact hrun draw

/-- What such an `add_order` did, if it returned. -/
theorem Ok.addOrder_ok {b b' : LimitOrderBook} (h : b.Ok) {t : Taker} (ht : t.Ok) {q : Int} (hq : 0 < q)
    (hid : b.orderIdMap t.orderId = none) {draw : Nat → Stamp} {ts : List Trade}
    (hrun : b.addOrder draw t.orderId t.price q t.side t.brokerId = .ok (b', ts)) :
    b.Matched t q b' ∧ b'.Ok ∧ tradesFor draw b.ticker t 0 (b.fills t q) = .ok ts ∧
      ts = ((b.fills t q).zipIdx 0).map (fun f => tradeOf (draw f.2) b.ticker t f.1.1.order f.1.2) := by
  obtain ⟨b₁, hm, hok, heq⟩ := h.addOrder_eq ht hq hid
  rw [heq draw, bind_eq_ok] at hrun
  obtain ⟨us, hus, hpair⟩ := hrun
  cases hpair
  exact ⟨hm, hok, hus, ((tradesFor_eq_ok_iff (h.tradable ht hid hq.le)).1 hus).2⟩

/-- The calls that change a book. -/
inductive Call
  | add (orderId price quantity : Int) (side : Side) (brokerId : String)
  | cancel (orderId : Int)
deriving DecidableEq, Repr

/-- What the contracts and the range of `int` allow. -/
def Call.Admissible (b : LimitOrderBook) : Call → Prop
  | .add orderId price quantity _ brokerId =>
    0 ≤ orderId ∧ b.orderIdMap orderId = none ∧ (price = marketAskOrderPrice ∨ 0 < price) ∧
      price ≤ marketBidOrderPrice ∧ 0 < quantity ∧ brokerId ≠ ""
  | .cancel orderId => b.orderIdMap orderId ≠ none

instance (b : LimitOrderBook) (c : Call) : Decidable (c.Admissible b) := by
  cases c
  · exact inferInstanceAs (Decidable (_ ∧ _))
  · exact inferInstanceAs (Decidable (_ ≠ _))

/-- A call with what it draws from outside: the new book and the trades it appends. -/
def Call.run (draw : Nat → Stamp) (b : LimitOrderBook) : Call → Except Fault (LimitOrderBook × List Trade)
  | .add orderId price quantity side brokerId => b.addOrder draw orderId price quantity side brokerId
  | .cancel orderId => do return (← b.cancelOrder orderId, [])

/-- The book after a call that returns. -/
def Call.step (b : LimitOrderBook) (e : Call × (Nat → Stamp)) : Option LimitOrderBook :=
  (e.1.run e.2 b).toOption.map Prod.fst

/-- The books that admissible calls lead to. -/
abbrev Reachable (ticker : String) : LimitOrderBook → Prop :=
  Reach Call.step (fun b e => e.1.Admissible b) (new ticker)

private theorem Call.run_of_step {b b' : LimitOrderBook} {e : Call × (Nat → Stamp)} (h : Call.step b e = some b') :
    ∃ ts, e.1.run e.2 b = .ok (b', ts) := by
  unfold Call.step at h
  cases hr : e.1.run e.2 b with
  | error f => rw [hr] at h; cases h
  | ok r => rw [hr] at h; cases h; exact ⟨r.2, rfl⟩

theorem Call.Admissible.takerOk {b : LimitOrderBook} {orderId price quantity : Int} {side : Side} {brokerId : String}
    (h : (Call.add orderId price quantity side brokerId).Admissible b) :
    Taker.Ok ⟨orderId, price, side, brokerId⟩ :=
  ⟨h.1, h.2.2.1, h.2.2.2.1, h.2.2.2.2.2⟩

/-- What an admissible call that returns does to a consistent book. -/
theorem Ok.step_cases {b b' : LimitOrderBook} {e : Call × (Nat → Stamp)} (h : b.Ok) (ha : e.1.Admissible b)
    (hs : Call.step b e = some b') :
    (∃ t q, e.1 = .add t.orderId t.price q t.side t.brokerId ∧ b.orderIdMap t.orderId = none ∧ 0 < q ∧
      b.Matched t q b') ∨ ∃ id, e.1 = .cancel id ∧ b.orderIdMap id ≠ none ∧ b.Cancelled id b' := by
  obtain ⟨ts, hrun⟩ := Call.run_of_step hs
  obtain ⟨c, draw⟩ := e
  cases c with
  | add orderId price quantity side brokerId =>
    obtain ⟨hm, -⟩ := h.addOrder_ok ha.takerOk ha.2.2.2.2.1 ha.2.1 hrun
    exact Or.inl ⟨⟨orderId, price, side, brokerId⟩, quantity, rfl, ha.2.1, ha.2.2.2.2.1, hm⟩
  | cancel orderId =>
    obtain ⟨b₁, heq, hc⟩ := h.cancelOrder_eq ha
    simp only [Call.run, heq] at hrun
    cases hrun
    exact Or.inr ⟨orderId, rfl, ha, hc⟩

/-- One admissible call keeps the book consistent. -/
theorem Ok.step {b b' : LimitOrderBook} {e : Call × (Nat → Stamp)} (h : b.Ok) (ha : e.1.Admissible b)
    (hs : Call.step b e = some b') : b'.Ok ∧ b'.ticker = b.ticker := by
  obtain ⟨t, q, -, hid, hq, hm⟩ | ⟨id, -, hid, hc⟩ := h.step_cases ha hs
  · exact ⟨hm.ok h hid hq.le, hm.ticker_eq⟩
  · exact ⟨hc.ok h hid, hc.ticker_eq⟩

theorem ok_of_reach {ticker : String} {b : LimitOrderBook} (h : Reachable ticker b) : b.Ok :=
  h.invariant (new_ok ticker) fun _ _ _ hok ha hs => (hok.step ha hs).1

/-- The representation invariant of the book, in terms of its three structures. -/
structure RepInvariant (b : LimitOrderBook) : Prop where
  level_ne : ∀ s, ∀ e ∈ (b.getSide s).entries, e.2 ≠ []
  level_price : ∀ s, ∀ e ∈ (b.getSide s).entries, 0 < e.1 ∧ e.1 < 2147483647
  level_order : ∀ s, ∀ e ∈ (b.getSide s).entries, ∀ n ∈ e.2,
    n.order.price = e.1 ∧ n.order.side = s ∧ 0 < n.order.quantity
  indexed : ∀ n ∈ nodesOf b.bids ++ nodesOf b.asks, b.orderIdMap n.order.orderId = some n.addr
  not_dangling : ∀ id a, b.orderIdMap id = some a → ∃ n, b.deref a = some n ∧ n.order.orderId = id
  ids_nodup : ((nodesOf b.bids ++ nodesOf b.asks).map fun n => n.order.orderId).Nodup
  uncrossed : ∀ m ∈ nodesOf b.bids, ∀ n ∈ nodesOf b.asks, m.order.price < n.order.price

/-- Every book that admissible calls lead to is represented correctly. -/
theorem repInvariant_of_reachable (ticker : String) (b : LimitOrderBook) (h : Reachable ticker b) :
    b.RepInvariant := by
  have hok := ok_of_reach h
  have hperm : (nodesOf b.bids ++ nodesOf b.asks).Perm b.nodes :=
    (nodesOf_perm .bid b.bids).append (nodesOf_perm .ask b.asks)
  have hslots : ∀ n ∈ b.nodes, n.slot ∈ b.slots := fun n hn => List.mem_map.2 ⟨n, hn, rfl⟩
  refine ⟨fun s => (hok.side_ok s).level_ne, fun s e he =>
    ⟨(hok.side_ok s).price_pos e he, (hok.side_ok s).price_lt e he⟩, fun s e he n hn => ?_, fun n hn => ?_,
      fun id a hid => ?_, ?_, fun m hm n hn => ?_⟩
  · have := (hok.side_ok s).node_ok e he n hn
    exact ⟨this.price_eq, this.side_eq, this.quantity_pos⟩
  · exact (hok.indexed.index_iff _ _).2 (hslots n (hperm.mem_iff.1 hn))
  · obtain ⟨n, hn, h1, rfl⟩ := hok.exists_node hid
    exact ⟨n, hok.deref_eq hn, h1⟩
  · have := hok.indexed.keys_nodup
    rw [slots, List.map_map] at this
    exact (hperm.map _).nodup_iff.2 this
  · exact hok.uncrossed .bid m ((nodesOf_perm .bid b.bids).mem_iff.1 hm) n ((nodesOf_perm .ask b.asks).mem_iff.1 hn)

/-- A maker is used up, a remainder rests, the oldest order is cancelled. -/
def sampleCalls : List (Call × (Nat → Stamp)) :=
  [(.add 0 100 5 .bid "ann", fun _ => .zero), (.add 1 103 4 .ask "bob", fun _ => .zero),
    (.add 2 105 6 .bid "cat", fun _ => .zero), (.cancel 0, fun _ => .zero)]

theorem repInvariant_sampleCalls :
    ∃ b, execIf Call.step (fun b e => e.1.Admissible b) (new "GME") sampleCalls = some b ∧
      nodesOf b.bids = [⟨2, ⟨2, 105, 2, .bid, "cat"⟩⟩] ∧ b.RepInvariant := by
  have hrun : (execIf Call.step (fun b e => e.1.Admissible b) (new "GME") sampleCalls).map (fun b => nodesOf b.bids) =
      some [⟨2, ⟨2, 105, 2, .bid, "cat"⟩⟩] := by decide +kernel
  obtain ⟨b, hb, hbids⟩ := Option.map_eq_some_iff.1 hrun
  exact ⟨b, hb, hbids, repInvariant_of_reachable "GME" b (Reach.start.trans_execIf hb)⟩

end LimitOrderBook

end Elsa
