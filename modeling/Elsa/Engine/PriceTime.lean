import Mathlib.Data.List.Sort
import Elsa.Engine.BookInvariant

/-!
# Price-time priority

The reference matcher keeps the resting orders in no particular order, each with the number of the call that left it
in the book (`Resting`).  To match an order it sorts the opposite side by price and, within a price, by that number,
keeps the part that the order's price crosses and fills it from the front (`Reference.add`).

The book does the same (`Follows`): the queue of each side is the sorted side of the reference, through every
sequence of admissible calls (`follows_run`).  So the trades of the next `add_order` and the book it leaves are
those of the reference (`addOrder_follows`), and the call returns exactly when the texts of all these trades fit the
arrays of `Trade`.
-/

namespace Elsa

open Base LimitOrderBook

/-- A resting order with the number of the call that left it in the book. -/
structure Resting where
  order : Order
  arrival : Nat
deriving DecidableEq, Repr

namespace Resting

def price (x : Resting) : Int := x.order.price

/-- Better price first, then earlier arrival. -/
def Before (s : Side) (x y : Resting) : Prop :=
  s.Better x.price y.price ∨ (x.price = y.price ∧ x.arrival ≤ y.arrival)

instance (s : Side) : DecidableRel (Before s) := fun _ _ => inferInstanceAs (Decidable (_ ∨ _))

instance (s : Side) : Std.Total (Before s) where
  total x y := by
    unfold Before
    cases s <;> simp only [Side.Better] <;> omega

instance (s : Side) : IsTrans Resting (Before s) where
  trans x y z hxy hyz := by
    unfold Before at *
    cases s <;> simp only [Side.Better] at * <;> omega

private theorem Before.antisymm {s : Side} {x y : Resting} (h : Before s x y) (h' : Before s y x) :
    x.arrival = y.arrival := by
  unfold Before at *
  cases s <;> simp only [Side.Better] at * <;> omega

theorem Before.not_better {s : Side} {x y : Resting} (h : Before s x y) : ¬ s.Better y.price x.price := by
  unfold Before at h
  cases s <;> simp only [Side.Better] at * <;> omega

def cut (x : Resting) (k : Int) : Resting := { x with order := x.order.cut k }

/-- A list that is sorted is the sorted list. -/
private theorem sort_eq {s : Side} {l L : List Resting} (hnd : (l.map arrival).Nodup) (hp : L.Perm l)
    (hs : L.Pairwise (Before s)) : l.insertionSort (Before s) = L := by
  have hsort := List.perm_insertionSort (Before s) l
  refine List.Perm.eq_of_pairwise ?_ (List.pairwise_insertionSort (Before s) l) hs (hsort.trans hp.symm)
  intro x y hx hy hxy hyx
  exact List.inj_on_of_nodup_map hnd (hsort.mem_iff.1 hx) (hp.mem_iff.1 hy) (hxy.antisymm hyx)

end Resting

/-- Resting orders as lots. -/
def restingLots : Lots Resting Int where
  cap x := x.order.quantity
  cut := Resting.cut
  key x := x.order.orderId
  cut_zero x := by simp [Resting.cut, Order.cut]
  cap_cut _ _ := rfl
  key_cut _ _ := rfl

/-- The reference matcher: the resting orders of each side in no particular order, and the number of calls so far. -/
structure Reference where
  pool : Side → List Resting
  calls : Nat

namespace Reference

def empty : Reference := ⟨fun _ => [], 0⟩

/-- One side as a list ordered by price and arrival. -/
def queue (r : Reference) (s : Side) : List Resting := (r.pool s).insertionSort (Resting.Before s)

/-- The prefix of the opposite side that an order crosses. -/
def crossing (r : Reference) (t : Taker) : List Resting :=
  (r.queue t.side.opposite).takeWhile (fun x => t.Crosses x.price)

def beyond (r : Reference) (t : Taker) : List Resting :=
  (r.queue t.side.opposite).dropWhile (fun x => t.Crosses x.price)

/-- The makers of an order and what each of them gives. -/
def fills (r : Reference) (t : Taker) (q : Int) : List (Resting × Int) := restingLots.allot q (r.crossing t)

def remainder (r : Reference) (t : Taker) (q : Int) : Int := restingLots.unmet q (r.crossing t)

/-- One trade for each maker, at the maker's price. -/
def trades (draw : Nat → Stamp) (ticker : String) (r : Reference) (t : Taker) (q : Int) : List Trade :=
  (r.fills t q).zipIdx.map fun f => tradeOf (draw f.2) ticker t f.1.1.order f.1.2

/-- The makers that are used up leave, one that is filled in part stays with the reduced quantity, and a remainder
joins the taker's side unless its price is a reserved one. -/
def add (r : Reference) (t : Taker) (q : Int) : Reference where
  pool s :=
    if s = t.side then
      if 0 < r.remainder t q ∧ t.price ≠ marketBidOrderPrice ∧ t.price ≠ marketAskOrderPrice then
        r.pool s ++ [⟨⟨t.orderId, t.price, r.remainder t q, t.side, t.brokerId⟩, r.calls⟩]
      else r.pool s
    else restingLots.leftover q (r.crossing t) ++ r.beyond t
  calls := r.calls + 1

def cancel (r : Reference) (id : Int) : Reference where
  pool s := (r.pool s).filter (fun x => x.order.orderId ≠ id)
  calls := r.calls + 1

def call (r : Reference) : Call → Reference
  | .add orderId price quantity side brokerId => r.add ⟨orderId, price, side, brokerId⟩ quantity
  | .cancel orderId => r.cancel orderId

def run (cs : List Call) : Reference := cs.foldl call empty

/-- The orders at a price, in the order of their arrival. -/
def level (r : Reference) (s : Side) (p : Int) : Option (List Order) :=
  let l := (r.queue s).filter (fun x => x.price = p)
  if l = [] then none else some (l.map Resting.order)

end Reference

/-- The book holds what the reference holds: the same orders at each price, in the same order, and the same ids. -/
structure Represents (b : LimitOrderBook) (r : Reference) : Prop where
  level_eq : ∀ s p, ((b.getSide s).find? p).map (List.map Node.order) = r.level s p
  index_iff : ∀ id, b.orderIdExists id = true ↔ ∃ s, ∃ x ∈ r.pool s, x.order.orderId = id

/-! ### The reference keeps arrivals apart -/

/-- Arrivals are numbers of past calls, each used once. -/
structure Reference.Fresh (r : Reference) : Prop where
  arrival_lt : ∀ s, ∀ x ∈ r.pool s, x.arrival < r.calls
  arrival_nodup : ∀ s, ((r.pool s).map Resting.arrival).Nodup

/-- Price and arrival, which decide the priority. -/
def Resting.rank (x : Resting) : Int × Nat := (x.price, x.arrival)

def rankBefore (s : Side) (a b : Int × Nat) : Prop := s.Better a.1 b.1 ∨ (a.1 = b.1 ∧ a.2 ≤ b.2)

private theorem pairwise_rank {s : Side} {l : List Resting} :
    (l.map Resting.rank).Pairwise (rankBefore s) ↔ l.Pairwise (Resting.Before s) := List.pairwise_map

namespace Reference

private theorem queue_perm (r : Reference) (s : Side) : (r.queue s).Perm (r.pool s) := List.perm_insertionSort _ _

private theorem queue_sorted (r : Reference) (s : Side) : (r.queue s).Pairwise (Resting.Before s) :=
  List.pairwise_insertionSort _ _

/-- What `add` leaves of the far side, as ranks. -/
private theorem add_far_sublist (r : Reference) (t : Taker) {q : Int} (hq : 0 ≤ q) :
    List.Sublist ((restingLots.leftover q (r.crossing t) ++ r.beyond t).map Resting.rank)
      ((r.queue t.side.opposite).map Resting.rank) := by
  have hsplit : r.crossing t ++ r.beyond t = r.queue t.side.opposite := List.takeWhile_append_dropWhile
  rw [← hsplit, List.map_append, List.map_append]
  exact (restingLots.leftover_suffix (g := Resting.rank) (fun _ _ => rfl) hq _).sublist.append (List.Sublist.refl _)

private theorem map_arrival (l : List Resting) : l.map Resting.arrival = (l.map Resting.rank).map Prod.snd := by
  rw [List.map_map]; rfl

private theorem Fresh.far_nodup {r : Reference} (h : r.Fresh) (t : Taker) {q : Int} (hq : 0 ≤ q) :
    ((restingLots.leftover q (r.crossing t) ++ r.beyond t).map Resting.arrival).Nodup := by
  have hq' : ((r.queue t.side.opposite).map Resting.arrival).Nodup :=
    ((r.queue_perm _).map Resting.arrival).nodup_iff.2 (h.arrival_nodup _)
  rw [map_arrival] at hq' ⊢
  exact ((r.add_far_sublist t hq).map Prod.snd).nodup hq'

theorem Fresh.add {r : Reference} (h : r.Fresh) (t : Taker) {q : Int} (hq : 0 ≤ q) : (r.add t q).Fresh := by
  constructor
  · intro s x hx
    simp only [Reference.add] at hx ⊢
    split at hx
    · split at hx
      · rcases List.mem_append.1 hx with hx | hx
        · exact Nat.lt_succ_of_lt (h.arrival_lt s x hx)
        · rw [List.mem_singleton.1 hx]; exact Nat.lt_succ_self _
      · exact Nat.lt_succ_of_lt (h.arrival_lt s x hx)
    · have hmem : x.arrival ∈ (r.queue t.side.opposite).map Resting.arrival := by
        rw [map_arrival]
        refine ((r.add_far_sublist t hq).map Prod.snd).subset ?_
        rw [← map_arrival]
        exact List.mem_map.2 ⟨x, hx, rfl⟩
      obtain ⟨y, hy, hyx⟩ := List.mem_map.1 hmem
      have := h.arrival_lt _ y ((r.queue_perm _).mem_iff.1 hy)
      omega
  · intro s
    simp only [Reference.add]
    split
    · split
      · rw [List.map_append, List.nodup_append]
        refine ⟨h.arrival_nodup s, by simp, ?_⟩
        rintro a ha b hb rfl
        obtain ⟨y, hy, rfl⟩ := List.mem_map.1 ha
        have := h.arrival_lt s y hy
        have hb' : y.arrival = r.calls := by simpa using hb
        omega
      · exact h.arrival_nodup s
    · exact h.far_nodup t hq

theorem Fresh.cancel {r : Reference} (h : r.Fresh) (id : Int) : (r.cancel id).Fresh where
  arrival_lt s x hx := Nat.lt_succ_of_lt (h.arrival_lt s x (List.mem_of_mem_filter hx))
  arrival_nodup s := (List.filter_sublist.map _).nodup (h.arrival_nodup s)

/-! ### The queues of the reference after a call -/

private theorem Fresh.add_queue_far {r : Reference} (h : r.Fresh) (t : Taker) {q : Int} (hq : 0 ≤ q) :
    (r.add t q).queue t.side.opposite = restingLots.leftover q (r.crossing t) ++ r.beyond t := by
  have hpool : (r.add t q).pool t.side.opposite = restingLots.leftover q (r.crossing t) ++ r.beyond t :=
    if_neg t.side.opposite_ne
  rw [queue, hpool]
  refine Resting.sort_eq (h.far_nodup t hq) (List.Perm.refl _) ?_
  rw [← pairwise_rank]
  exact (pairwise_rank.2 (r.queue_sorted _)).sublist (r.add_far_sublist t hq)

private theorem Fresh.add_queue_near {r : Reference} (h : r.Fresh) (t : Taker) {q : Int} (hq : 0 ≤ q) :
    (r.add t q).queue t.side =
      if 0 < r.remainder t q ∧ t.price ≠ marketBidOrderPrice ∧ t.price ≠ marketAskOrderPrice then
        enqueue Resting.price t.side ⟨⟨t.orderId, t.price, r.remainder t q, t.side, t.brokerId⟩, r.calls⟩
          (r.queue t.side)
      else r.queue t.side := by
  have hnd := (h.add t hq).arrival_nodup t.side
  rw [queue]
  simp only [Reference.add, if_true] at hnd ⊢
  split
  · rename_i hr
    rw [if_pos hr] at hnd
    set new : Resting := ⟨⟨t.orderId, t.price, r.remainder t q, t.side, t.brokerId⟩, r.calls⟩ with hnew
    refine Resting.sort_eq hnd ?_ ?_
    · refine (enqueue_perm Resting.price t.side new _).trans (((r.queue_perm _).cons new).trans ?_)
      exact (List.perm_append_singleton new _).symm
    · -- the orders in front are at least as well priced and older, those behind are worse priced
      have hsplit : (r.queue t.side).takeWhile (fun y => ¬ t.side.Better new.price y.price) ++
          (r.queue t.side).dropWhile (fun y => ¬ t.side.Better new.price y.price) = r.queue t.side :=
        List.takeWhile_append_dropWhile
      have hs := r.queue_sorted t.side
      have hdrop : ∀ y ∈ (r.queue t.side).dropWhile (fun y => ¬ t.side.Better new.price y.price),
          t.side.Better new.price y.price := by
        intro y hy
        have := not_of_mem_dropWhile (hs.imp fun hxy hb => by
          rw [decide_eq_true_eq] at hb ⊢
          exact Side.not_better_trans hxy.not_better hb) hy
        simpa using this
      rw [← hsplit, List.pairwise_append] at hs
      unfold enqueue
      rw [List.pairwise_append, List.pairwise_cons]
      refine ⟨hs.1, ⟨fun y hy => Or.inl (hdrop y hy), hs.2.1⟩, fun x hx y hy => ?_⟩
      rcases List.mem_cons.1 hy with rfl | hy
      · have hxp : ¬ t.side.Better new.price x.price := by simpa using List.all_eq_true.1 List.all_takeWhile x hx
        have hxa : x.arrival < r.calls :=
          h.arrival_lt t.side x ((r.queue_perm _).mem_iff.1 ((List.takeWhile_prefix _).subset hx))
        rcases Side.not_better.1 hxp with hp | hp
        · exact Or.inr ⟨hp.symm, hxa.le⟩
        · exact Or.inl hp
      · exact hs.2.2 x hx y hy
  · rfl

private theorem cancel_queue {r : Reference} (h : r.Fresh) (id : Int) (s : Side) :
    (r.cancel id).queue s = (r.queue s).filter (fun x => x.order.orderId ≠ id) :=
  Resting.sort_eq ((h.cancel id).arrival_nodup s) ((r.queue_perm s).filter _) ((r.queue_sorted s).filter _)

end Reference

/-! ### The book follows the reference -/

/-- The queues of the book are those of the reference. -/
structure Follows (b : LimitOrderBook) (r : Reference) : Prop where
  orders_eq : ∀ s, (b.queue s).map Node.order = (r.queue s).map Resting.order
  fresh : r.Fresh

namespace Follows

variable {b b' : LimitOrderBook} {r : Reference} {t : Taker} {q : Int}

private theorem reached_eq (h : Follows b r) (t : Taker) :
    (t.reached (b.queue t.side.opposite)).map Node.order = (r.crossing t).map Resting.order := by
  have := congrArg (List.takeWhile fun o : Order => decide (t.Crosses o.price)) (h.orders_eq t.side.opposite)
  rw [List.takeWhile_map, List.takeWhile_map] at this
  exact this

private theorem unreached_eq (h : Follows b r) (t : Taker) :
    (t.unreached (b.queue t.side.opposite)).map Node.order = (r.beyond t).map Resting.order := by
  have := congrArg (List.dropWhile fun o : Order => decide (t.Crosses o.price)) (h.orders_eq t.side.opposite)
  rw [List.dropWhile_map, List.dropWhile_map] at this
  exact this

private theorem remainder_eq (h : Follows b r) (t : Taker) (q : Int) : b.remainder t q = r.remainder t q := by
  unfold LimitOrderBook.remainder Reference.remainder
  rw [← nodeLots.unmet_map orderLots (h := Node.order) (fun _ => rfl),
    ← restingLots.unmet_map orderLots (h := Resting.order) (fun _ => rfl), h.reached_eq]

private theorem fills_eq (h : Follows b r) (t : Taker) (q : Int) :
    (b.fills t q).map (Prod.map Node.order id) = (r.fills t q).map (Prod.map Resting.order id) := by
  unfold LimitOrderBook.fills Reference.fills
  rw [← nodeLots.allot_map orderLots (h := Node.order) (fun _ => rfl),
    ← restingLots.allot_map orderLots (h := Resting.order) (fun _ => rfl), h.reached_eq]

private theorem leftover_eq (h : Follows b r) (t : Taker) (q : Int) :
    (nodeLots.leftover q (t.reached (b.queue t.side.opposite))).map Node.order =
      (restingLots.leftover q (r.crossing t)).map Resting.order := by
  rw [← nodeLots.leftover_map orderLots (h := Node.order) (fun _ => rfl) (fun _ _ => rfl),
    ← restingLots.leftover_map orderLots (h := Resting.order) (fun _ => rfl) (fun _ _ => rfl), h.reached_eq]

/-- The trades of the book are those of the reference. -/
private theorem trades_eq (h : Follows b r) (draw : Nat → Stamp) (ticker : String) (t : Taker) (q : Int) :
    (b.fills t q).zipIdx.map (fun f => tradeOf (draw f.2) ticker t f.1.1.order f.1.2) = r.trades draw ticker t q := by
  have hz :=
    congrArg (fun l => (l.zipIdx 0).map fun f : (Order × Int) × Nat => tradeOf (draw f.2) ticker t f.1.1 f.1.2)
      (h.fills_eq t q)
  simp only [List.zipIdx_map, List.map_map] at hz
  exact hz

theorem new (ticker : String) : Follows (LimitOrderBook.new ticker) Reference.empty where
  orders_eq s := by cases s <;> rfl
  fresh := ⟨fun _ _ hx => absurd hx List.not_mem_nil, fun _ => List.nodup_nil⟩

theorem matched (h : Follows b r) (hm : b.Matched t q b') (hq : 0 ≤ q) : Follows b' (r.add t q) := by
  refine ⟨fun s => ?_, h.fresh.add t hq⟩
  rcases s.eq_or_opposite t.side with rfl | rfl
  · rw [hm.near_queue, h.fresh.add_queue_near t hq]
    have hrest : b.Rests t q ↔
        0 < r.remainder t q ∧ t.price ≠ marketBidOrderPrice ∧ t.price ≠ marketAskOrderPrice := by
      unfold LimitOrderBook.Rests
      rw [h.remainder_eq]
    simp only [hrest]
    split
    · have hn := map_enqueue (fun o : Order => o.price) Node.order t.side (b.restingNode t q) (b.queue t.side)
      have hr := map_enqueue (fun o : Order => o.price) Resting.order t.side
        ⟨⟨t.orderId, t.price, r.remainder t q, t.side, t.brokerId⟩, r.calls⟩ (r.queue t.side)
      rw [h.orders_eq, restingNode, h.remainder_eq] at hn
      rw [restingNode, h.remainder_eq]
      exact hn.trans hr.symm
    · exact h.orders_eq _
  · rw [hm.far_queue, h.fresh.add_queue_far t hq, List.map_append, List.map_append, h.leftover_eq, h.unreached_eq]

theorem cancelled (h : Follows b r) {id : Int} (hc : b.Cancelled id b') : Follows b' (r.cancel id) := by
  refine ⟨fun s => ?_, h.fresh.cancel id⟩
  have := congrArg (List.filter fun o : Order => decide (o.orderId ≠ id)) (h.orders_eq s)
  rw [List.filter_map, List.filter_map] at this
  rw [hc.queue_eq, Reference.cancel_queue h.fresh]
  exact this

/-- One admissible call. -/
theorem step (h : Follows b r) (hok : b.Ok) {e : Call × (Nat → Stamp)} (ha : e.1.Admissible b)
    (hs : Call.step b e = some b') : Follows b' (r.call e.1) := by
  obtain ⟨t, q, he, -, hq, hm⟩ | ⟨id, he, -, hc⟩ := hok.step_cases ha hs
  · rw [he]; exact h.matched hm hq.le
  · rw [he]; exact h.cancelled hc

/-- Any number of admissible calls. -/
theorem run (h : Follows b r) (hok : b.Ok) {es : List (Call × (Nat → Stamp))}
    (hs : execIf Call.step (fun b e => e.1.Admissible b) b es = some b') :
    b'.Ok ∧ b'.ticker = b.ticker ∧ Follows b' ((es.map Prod.fst).foldl Reference.call r) := by
  induction es generalizing b r with
  | nil => cases hs; exact ⟨hok, rfl, h⟩
  | cons e es ih =>
    rw [execIf] at hs
    split at hs
    · rename_i ha
      obtain ⟨b₁, hb₁, hs⟩ := Option.bind_eq_some_iff.1 hs
      obtain ⟨hok₁, htick⟩ := hok.step ha hb₁
      rw [← htick]
      exact ih (h.step hok ha hb₁) hok₁ hs
    · cases hs

/-- A book that follows the reference holds what the reference holds. -/
private theorem represents (h : Follows b r) (hok : b.Ok) : Represents b r := by
  constructor
  · intro s p
    have := congrArg (List.filter fun o : Order => decide (o.price = p)) (h.orders_eq s)
    rw [List.filter_map, List.filter_map] at this
    rw [find?_eq_filter (hok.side_ok s), Reference.level]
    -- a level of the book is the part of its queue at one price, and the same holds of the reference
    have hnil : (b.queue s).filter (fun n => decide (n.order.price = p)) = [] ↔
        (r.queue s).filter (fun x => decide (x.price = p)) = [] := by
      rw [← List.map_eq_nil_iff (f := Node.order), ← List.map_eq_nil_iff (f := Resting.order)]
      exact iff_of_eq (congrArg (· = []) this)
    simp only
    by_cases hl : (r.queue s).filter (fun x => decide (x.price = p)) = []
    · rw [if_pos hl]
      rw [queue] at hnil
      rw [if_pos (hnil.2 hl)]
      rfl
    · rw [if_neg hl]
      rw [queue] at hnil
      rw [if_neg (mt hnil.1 hl)]
      exact congrArg some this
  · intro id
    have hid : b.orderIdExists id = true ↔ ∃ n ∈ b.nodes, n.order.orderId = id := by
      rw [orderIdExists, ← Option.ne_none_iff_isSome, Ne, hok.indexed.free_iff, not_not, slots, List.map_map,
        List.mem_map]
      rfl
    have hside : ∀ s, (∃ n ∈ b.queue s, n.order.orderId = id) ↔ ∃ x ∈ r.pool s, x.order.orderId = id := by
      intro s
      have := congrArg (List.map fun o : Order => o.orderId) (h.orders_eq s)
      rw [List.map_map, List.map_map] at this
      have hmem : id ∈ (b.queue s).map (fun n => n.order.orderId) ↔ id ∈ (r.queue s).map (fun x => x.order.orderId) :=
        iff_of_eq (congrArg (id ∈ ·) this)
      simp only [List.mem_map, (r.queue_perm s).mem_iff] at hmem
      exact hmem
    rw [hid]
    constructor
    · rintro ⟨n, hn, hni⟩
      rcases List.mem_append.1 hn with hn | hn
      · exact ⟨_, (hside _).1 ⟨n, hn, hni⟩⟩
      · exact ⟨_, (hside _).1 ⟨n, hn, hni⟩⟩
    · rintro ⟨s, hs⟩
      obtain ⟨n, hn, hni⟩ := (hside s).2 hs
      exact ⟨n, (mem_nodes s).2 (Or.inr hn), hni⟩

end Follows

/-- In every state that admissible calls lead to, the next admissible `add_order` returns exactly when the texts of
all trades to be made fit, and then its trades and the book it leaves are those of the reference matcher. -/
theorem addOrder_priceTime (ticker : String) (es : List (Call × (Nat → Stamp))) (b : LimitOrderBook)
    (hrun : execIf Call.step (fun b e => e.1.Admissible b) (LimitOrderBook.new ticker) es = some b)
    (t : Taker) (q : Int) (ha : (Call.add t.orderId t.price q t.side t.brokerId).Admissible b) (draw : Nat → Stamp) :
    let r := Reference.run (es.map Prod.fst)
    ((∃ b' ts, b.addOrder draw t.orderId t.price q t.side t.brokerId = .ok (b', ts)) ↔
      ∀ f ∈ r.fills t q, TextsFit ticker t.brokerId f.1.order.traderId) ∧
    ∀ b' ts, b.addOrder draw t.orderId t.price q t.side t.brokerId = .ok (b', ts) →
      ts = r.trades draw ticker t q ∧ Represents b' (r.add t q) := by
  intro r
  obtain ⟨hok, hticker, hf⟩ := (Follows.new ticker).run (new_ok ticker) hrun
  replace hticker : b.ticker = ticker := hticker
  have hq := ha.2.2.2.2.1
  have ht : t.Ok := ha.takerOk
  obtain ⟨b₁, -, -, heq⟩ := hok.addOrder_eq ht hq ha.2.1
  have htr := hok.tradable ht ha.2.1 hq.le
  -- the makers of the book and of the reference are the same orders
  have hfit : (∀ f ∈ b.fills t q, TextsFit ticker t.brokerId f.1.order.traderId) ↔
      ∀ f ∈ r.fills t q, TextsFit ticker t.brokerId f.1.order.traderId := by
    have := congrArg (fun l : List (Order × Int) => ∀ f ∈ l, TextsFit ticker t.brokerId f.1.traderId)
        (hf.fills_eq t q)
    simp only [List.forall_mem_map, Prod.map_fst] at this
    exact iff_of_eq this
  constructor
  · rw [← hfit]
    constructor
    · rintro ⟨b', ts, h⟩
      rw [heq draw, bind_eq_ok] at h
      obtain ⟨us, hus, -⟩ := h
      rw [hticker] at hus
      exact ((tradesFor_eq_ok_iff htr).1 hus).1
    · intro h
      refine ⟨b₁, (b.fills t q).zipIdx.map fun f => tradeOf (draw f.2) ticker t f.1.1.order f.1.2, ?_⟩
      rw [heq draw, hticker, (tradesFor_eq_ok_iff htr).2 ⟨h, rfl⟩]
      rfl
  · intro b' ts h
    obtain ⟨hm, hok', -, hts⟩ := hok.addOrder_ok ht hq ha.2.1 h
    rw [hticker] at hts
    exact ⟨hts.trans (hf.trades_eq draw ticker t q), (hf.matched hm hq.le).represents hok'⟩

/-- Two makers at one price in the order of their arrival, and one at a better price. -/
def restingCalls : List (Call × (Nat → Stamp)) :=
  [(.add 0 103 4 .ask "bob", fun _ => .zero), (.add 1 103 2 .ask "cat", fun _ => .zero),
    (.add 2 101 1 .ask "dan", fun _ => .zero)]

theorem addOrder_priceTime_sample : ∃ b b' ts,
    execIf Call.step (fun b e => e.1.Admissible b) (LimitOrderBook.new "GME") restingCalls = some b ∧
      b.addOrder (fun _ => .zero) 3 105 6 .bid "ann" = .ok (b', ts) ∧
      ts.map (fun tr => (tr.makerOrderId, tr.price, tr.quantity)) = [(2, 101, 1), (0, 103, 4), (1, 103, 1)] ∧
      Represents b' ((Reference.run (restingCalls.map Prod.fst)).add ⟨3, 105, .bid, "ann"⟩ 6) := by
  have hrun : (execIf Call.step (fun b e => e.1.Admissible b) (LimitOrderBook.new "GME") restingCalls).any
      (fun b => decide ((Call.add 3 105 6 .bid "ann").Admissible b)) = true := by decide +kernel
  obtain ⟨b, hb, ha⟩ := (Option.any_eq_true _ _).1 hrun
  obtain ⟨hret, heq⟩ := addOrder_priceTime "GME" restingCalls b hb ⟨3, 105, .bid, "ann"⟩ 6 (of_decide_eq_true ha)
      (fun _ => .zero)
  obtain ⟨b', ts, h⟩ := hret.2 (by decide +kernel)
  obtain ⟨hts, hrep⟩ := heq b' ts h
  exact ⟨b, b', ts, hb, h, by rw [hts]; decide +kernel, hrep⟩

/-- A broker name of sixteen bytes does not fit: the call that would trade with it stops in the constructor of
`Trade`. -/
theorem addOrder_long_broker : ∃ b,
    execIf Call.step (fun b e => e.1.Admissible b) (LimitOrderBook.new "GME")
      [(.add 0 103 4 .ask "bob", fun _ => .zero)] = some b ∧
      (Call.add 1 103 4 .bid "sixteen-bytes-id").Admissible b ∧
      b.addOrder (fun _ => .zero) 1 103 4 .bid "sixteen-bytes-id" = .error .assertion := by
  have hrun : (execIf Call.step (fun b e => e.1.Admissible b) (LimitOrderBook.new "GME")
      [(.add 0 103 4 .ask "bob", fun _ => .zero)]).any (fun b =>
        decide ((Call.add 1 103 4 .bid "sixteen-bytes-id").Admissible b) &&
          decide (errorOf (b.addOrder (fun _ => .zero) 1 103 4 .bid "sixteen-bytes-id") = some .assertion)) =
            true := by
    decide +kernel
  obtain ⟨b, hb, h⟩ := (Option.any_eq_true _ _).1 hrun
  rw [Bool.and_eq_true, decide_eq_true_eq, decide_eq_true_eq, errorOf_eq_some] at h
  exact ⟨b, hb, h⟩

end Elsa
