import Elsa.Base.Allot
import Elsa.Engine.Levels
import Elsa.Engine.Trades

/-!
# The matching loops are a greedy allotment

Nodes are lots whose size is the quantity left (`nodeLots`).  The inner loop of `match_order` allots the remaining
quantity to the orders of one level (`fillLevel_eq`), and both loops together allot it to the part of the far side's
queue that the taker's price crosses (`matchLevels_eq`): the trades are created in the order of the allotment, one
for each maker, and the far side that remains is again well-formed.  `match_order` and `add_order` follow
(`matchOrder_eq`).
-/

namespace Elsa

open Base LimitOrderBook

/-- An order with `k` less to trade. -/
def Order.cut (o : Order) (k : Int) : Order := { o with quantity := o.quantity - k }

def Node.cut (n : Node) (k : Int) : Node := { n with order := n.order.cut k }

/-- Orders as lots. -/
def orderLots : Lots Order Int where
  cap o := o.quantity
  cut := Order.cut
  key o := o.orderId
  cut_zero o := by simp [Order.cut]
  cap_cut _ _ := rfl
  key_cut _ _ := rfl

/-- The nodes of a book as lots. -/
def nodeLots : Lots Node Int where
  cap n := n.order.quantity
  cut := Node.cut
  key n := n.order.orderId
  cut_zero n := by simp [Node.cut, Order.cut]
  cap_cut _ _ := rfl
  key_cut _ _ := rfl

/-- The taker's price admits a trade at `price`. -/
def Taker.Crosses (t : Taker) (price : Int) : Prop :=
  match t.side with
  | .bid => price ≤ t.price
  | .ask => t.price ≤ price

instance (t : Taker) (price : Int) : Decidable (t.Crosses price) := by
  unfold Taker.Crosses
  cases t.side
  · exact inferInstanceAs (Decidable (price ≤ t.price))
  · exact inferInstanceAs (Decidable (t.price ≤ price))

private theorem Taker.not_crosses_iff (t : Taker) (price : Int) :
    ¬ t.Crosses price ↔ (t.side = .bid ∧ t.price < price) ∨ (t.side = .ask ∧ t.price > price) := by
  unfold Taker.Crosses
  cases t.side <;> simp

theorem Taker.Crosses.of_better {t : Taker} {p p' : Int} (h : t.Crosses p) (hb : ¬ t.side.opposite.Better p p') :
    t.Crosses p' := by
  unfold Taker.Crosses at *
  cases ht : t.side <;> rw [ht] at h hb <;> simp only [Side.opposite, Side.Better] at * <;> omega

/-- The nodes of a queue that the taker's price reaches. -/
def Taker.reached (t : Taker) (q : List Node) : List Node := q.takeWhile (fun n => t.Crosses n.order.price)

/-- The nodes of a queue behind them. -/
def Taker.unreached (t : Taker) (q : List Node) : List Node := q.dropWhile (fun n => t.Crosses n.order.price)

theorem Taker.reached_append_unreached (t : Taker) (q : List Node) : t.reached q ++ t.unreached q = q :=
  List.takeWhile_append_dropWhile

/-- What is dropped from the front of a list while `p` holds ends before the first element without it; if no later
element has `p` again, the rest has none. -/
theorem not_of_mem_dropWhile {α : Type} {p : α → Bool} {l : List α}
    (h : l.Pairwise (fun x y => p y = true → p x = true)) {x : α} (hx : x ∈ l.dropWhile p) : p x = false := by
  induction l with
  | nil => cases hx
  | cons a l ih =>
    rw [List.pairwise_cons] at h
    rw [List.dropWhile_cons] at hx
    split at hx
    · exact ih h.2 hx
    · rename_i ha
      rcases List.mem_cons.1 hx with rfl | hx
      · simpa using ha
      · exact Bool.eq_false_iff.2 fun hp => ha (h.1 x hx hp)

/-- The index without the makers that an allotment uses up. -/
def eraseFilled (index : Int → Option Nat) (fills : List (Node × Int)) : Int → Option Nat :=
  fills.foldl (fun ix f => if f.2 = f.1.order.quantity then eraseId ix f.1.order.orderId else ix) index

private theorem eraseFilled_append (index : Int → Option Nat) (fs gs : List (Node × Int)) :
    eraseFilled index (fs ++ gs) = eraseFilled (eraseFilled index fs) gs := by
  simp [eraseFilled]

theorem eraseFilled_apply (index : Int → Option Nat) (fs : List (Node × Int)) (id : Int) :
    eraseFilled index fs id =
      if ∃ f ∈ fs, f.1.order.orderId = id ∧ f.2 = f.1.order.quantity then none else index id := by
  induction fs generalizing index with
  | nil => simp [eraseFilled]
  | cons f fs ih =>
    have hstep : eraseFilled index (f :: fs) =
        eraseFilled (if f.2 = f.1.order.quantity then eraseId index f.1.order.orderId else index) fs := rfl
    rw [hstep, ih]
    -- an id that a later maker erases is erased in any case
    by_cases h : ∃ g ∈ fs, g.1.order.orderId = id ∧ g.2 = g.1.order.quantity
    · have h' : ∃ g ∈ f :: fs, g.1.order.orderId = id ∧ g.2 = g.1.order.quantity := by
        obtain ⟨g, hg, h2⟩ := h; exact ⟨g, List.mem_cons_of_mem _ hg, h2⟩
      rw [if_pos h, if_pos h']
    · rw [if_neg h]
      by_cases hf : f.2 = f.1.order.quantity
      · rw [if_pos hf]
        by_cases hid : f.1.order.orderId = id
        · rw [if_pos ⟨f, by simp, hid, hf⟩, eraseId, hid, Function.update_self]
        · have hn : ¬ ∃ g ∈ f :: fs, g.1.order.orderId = id ∧ g.2 = g.1.order.quantity := by
            rintro ⟨g, hg, h1, h2⟩
            rcases List.mem_cons.1 hg with rfl | hg
            · exact hid h1
            · exact h ⟨g, hg, h1, h2⟩
          rw [if_neg hn, eraseId, Function.update_of_ne (Ne.symm hid)]
      · rw [if_neg hf]
        have hn : ¬ ∃ g ∈ f :: fs, g.1.order.orderId = id ∧ g.2 = g.1.order.quantity := by
          rintro ⟨g, hg, h1, h2⟩
          rcases List.mem_cons.1 hg with rfl | hg
          · exact hf h2
          · exact h ⟨g, hg, h1, h2⟩
        rw [if_neg hn]

/-! ### The inner loop -/

/-- The state of `match_order` after an allotment with the given trades. -/
def Progress.after (p : Progress) (q : List Node) (ts : List Trade) : Progress :=
  { orderIdMap := eraseFilled p.orderIdMap (nodeLots.allot p.remainingQuantity q)
    remainingQuantity := nodeLots.unmet p.remainingQuantity q
    trades := p.trades ++ ts }

/-- The inner loop allots the remaining quantity to the orders of the level. -/
theorem fillLevel_eq (draw : Nat → Stamp) (ticker : String) (t : Taker) (ns : List Node) (p : Progress) :
    fillLevel draw ticker t ns p = (do
      let ts ← tradesFor draw ticker t p.trades.length (nodeLots.allot p.remainingQuantity ns)
      return (nodeLots.leftover p.remainingQuantity ns, p.after ns ts)) := by
  induction ns generalizing p with
  | nil => simp [fillLevel, Lots.allot, Lots.leftover, Progress.after, Lots.unmet, eraseFilled]
  | cons n ns ih =>
    rw [fillLevel]
    by_cases hp : 0 < p.remainingQuantity
    · rw [if_pos hp]
      -- the maker is used up, or it is the last one and keeps the rest
      by_cases hn : n.order.quantity ≤ p.remainingQuantity
      · have ha : nodeLots.allot p.remainingQuantity (n :: ns) =
            (n, n.order.quantity) :: nodeLots.allot (p.remainingQuantity - n.order.quantity) ns := by
          rw [Lots.allot, if_neg (by omega)]; exact if_pos hn
        have hl : nodeLots.leftover p.remainingQuantity (n :: ns) =
            nodeLots.leftover (p.remainingQuantity - n.order.quantity) ns := by
          rw [Lots.leftover, if_neg (by omega)]; exact if_pos hn
        have hu : nodeLots.unmet p.remainingQuantity (n :: ns) =
            nodeLots.unmet (p.remainingQuantity - n.order.quantity) ns := by
          rw [Lots.unmet, if_neg (by omega)]; exact if_pos hn
        rw [if_pos hn, ha, hl, tradesFor_cons]
        simp only [ih, Progress.after, ha, hu, bind_assoc, pure_bind, List.length_append, List.length_singleton,
          List.append_assoc, List.singleton_append, eraseFilled, List.foldl_cons, if_true]
      · have ha : nodeLots.allot p.remainingQuantity (n :: ns) = [(n, p.remainingQuantity)] := by
          rw [Lots.allot, if_neg (by omega)]; exact if_neg hn
        have hl : nodeLots.leftover p.remainingQuantity (n :: ns) = n.cut p.remainingQuantity :: ns := by
          rw [Lots.leftover, if_neg (by omega)]; exact if_neg hn
        have hu : nodeLots.unmet p.remainingQuantity (n :: ns) = 0 := by
          rw [Lots.unmet, if_neg (by omega)]; exact if_neg hn
        have hne : p.remainingQuantity ≠ n.order.quantity := by omega
        have hfill : n.order.fill p.remainingQuantity = .ok (n.cut p.remainingQuantity).order := by
          rw [Order.fill, require_of (by omega)]; rfl
        rw [if_neg hn, ha, hl, tradesFor_cons, hfill]
        simp only [Progress.after, ha, hu, bind_assoc, pure_bind, tradesFor_nil, eraseFilled, List.foldl_cons,
          List.foldl_nil, if_neg hne]
        rfl
    · rw [if_neg hp, Lots.allot_of_nonpos _ (by omega), Lots.leftover_of_nonpos _ (by omega)]
      simp only [Progress.after, Lots.allot_of_nonpos _ (show p.remainingQuantity ≤ 0 by omega),
        Lots.unmet_of_nonpos _ (show p.remainingQuantity ≤ 0 by omega), tradesFor_nil, eraseFilled, List.foldl_nil]
      simp

/-! ### Both loops -/

theorem NodeOk.cut {s : Side} {price : Int} {n : Node} (h : NodeOk s price n) {k : Int}
    (hk : 0 < (n.cut k).order.quantity) : NodeOk s price (n.cut k) :=
  ⟨h.price_eq, h.side_eq, hk, h.id_nonneg, h.trader_ne⟩

/-- What an allotment leaves of well-formed nodes is well-formed. -/
private theorem leftover_nodeOk {s : Side} {price q : Int} (hq : 0 ≤ q) {ns : List Node}
    (h : ∀ n ∈ ns, NodeOk s price n) : ∀ n ∈ nodeLots.leftover q ns, NodeOk s price n := by
  intro n hn
  have hpos := nodeLots.leftover_pos hq (fun m hm => (h m hm).quantity_pos) hn
  obtain ⟨ys, zs, rfl, hc⟩ := nodeLots.allot_cases hq ns
  rcases hc with ⟨-, h2, -⟩ | ⟨z, zs', k, rfl, -, -, -, h5, -⟩
  · rw [h2] at hn; exact h n (List.mem_append_right _ hn)
  · rw [h5] at hn
    rcases List.mem_cons.1 hn with rfl | hn
    · exact (h z (by simp)).cut hpos
    · exact h n (by simp [hn])

section loop

variable {draw : Nat → Stamp} {ticker : String} {t : Taker} {far : SideContainer} {price : Int} {orders : List Node}
  {L : List (Int × List Node)}

private theorem queueOf_cons {s : Side} (hL : levelsOf s far = (price, orders) :: L) :
    queueOf s far = orders ++ L.flatMap Prod.snd := by
  rw [queueOf, hL]
  rfl

/-- A best level that the taker's price reaches is reached as a whole. -/
private theorem SideOk.reached_cons (hok : SideOk t.side.opposite far)
    (hL : levelsOf t.side.opposite far = (price, orders) :: L) (hcross : t.Crosses price) :
    t.reached (queueOf t.side.opposite far) = orders ++ t.reached (L.flatMap Prod.snd) ∧
      t.unreached (queueOf t.side.opposite far) = t.unreached (L.flatMap Prod.snd) := by
  have hmem : (price, orders) ∈ far.entries := mem_levelsOf.1 (by rw [hL]; simp)
  have hall : ∀ n ∈ orders, decide (t.Crosses n.order.price) = true := by
    intro n hn
    rw [(hok.node_ok _ hmem n hn).price_eq]
    exact decide_eq_true hcross
  rw [queueOf_cons hL]
  exact ⟨List.takeWhile_append_of_pos hall, List.dropWhile_append_of_pos hall⟩

private theorem SideOk.reached_eq_nil_iff (hok : SideOk t.side.opposite far)
    (hL : levelsOf t.side.opposite far = (price, orders) :: L) :
    t.reached (queueOf t.side.opposite far) = [] ↔ ¬ t.Crosses price := by
  have hmem : (price, orders) ∈ far.entries := mem_levelsOf.1 (by rw [hL]; simp)
  have hne : orders ≠ [] := hok.level_ne _ hmem
  constructor
  · intro hnil hcross
    rw [(hok.reached_cons hL hcross).1, List.append_eq_nil_iff] at hnil
    exact hne hnil.1
  · intro hcross
    obtain ⟨n, ns, rfl⟩ := List.exists_cons_of_ne_nil hne
    have hn : ¬ t.Crosses n.order.price := by
      rw [(hok.node_ok _ hmem n List.mem_cons_self).price_eq]
      exact hcross
    rw [queueOf_cons hL, Taker.reached, List.cons_append, List.takeWhile_cons]
    simp [hn]

private theorem matchLevels_of_done {p : Progress} (fuel : Nat) (far : SideContainer) (hp : p.remainingQuantity ≤ 0) :
    matchLevels draw ticker t fuel far p = .ok (far, p) := by
  cases fuel with
  | zero => rfl
  | succ fuel => rw [matchLevels, if_neg (by omega)]

/-- Nothing is reached if the far side is empty or its best price is too far off; the loop stops either way. -/
private theorem matchLevels_of_reached_nil {p : Progress} (fuel : Nat) (hok : SideOk t.side.opposite far)
    (hnil : t.reached (queueOf t.side.opposite far) = []) : matchLevels draw ticker t fuel far p = .ok (far, p) := by
  cases fuel with
  | zero => rfl
  | succ fuel =>
    rw [matchLevels, bestLevel_eq]
    cases hL : levelsOf t.side.opposite far with
    | nil => simp
    | cons e L =>
      obtain ⟨price, orders⟩ := e
      have hbreak := (t.not_crosses_iff price).1 ((hok.reached_eq_nil_iff hL).1 hnil)
      simp only [List.head?_cons, if_pos hbreak, ite_self]

/-- An iteration that does not stop fills the best level. -/
private theorem matchLevels_succ {p : Progress} (fuel : Nat) (hp : 0 < p.remainingQuantity)
    (hL : levelsOf t.side.opposite far = (price, orders) :: L) (hcross : t.Crosses price) :
    matchLevels draw ticker t (fuel + 1) far p = (do
      let r ← fillLevel draw ticker t orders p
      matchLevels draw ticker t fuel (if r.1 = [] then far.erase price else far.insert price r.1) r.2) := by
  rw [matchLevels, if_pos hp, bestLevel_eq, hL]
  exact if_neg (fun hc => (t.not_crosses_iff price).2 hc hcross)

private theorem Progress.after_of_allot_nil {p : Progress} {q : List Node}
    (h : nodeLots.allot p.remainingQuantity q = [])
    (hu : nodeLots.unmet p.remainingQuantity q = p.remainingQuantity) : p.after q [] = p := by
  simp [Progress.after, h, hu, eraseFilled]

end loop

/-- What the two loops do with a far side: its nodes that the taker's price reaches are allotted the remaining
quantity, and `far'` is what they leave. -/
def Leaves (ticker : String) (t : Taker) (fuel : Nat) (far : SideContainer) (rem : Int) (far' : SideContainer) :
    Prop :=
  SideOk t.side.opposite far' ∧
    queueOf t.side.opposite far' =
      nodeLots.leftover rem (t.reached (queueOf t.side.opposite far)) ++ t.unreached (queueOf t.side.opposite far) ∧
    ∀ draw p, p.remainingQuantity = rem → matchLevels draw ticker t fuel far p = (do
      let ts ← tradesFor draw ticker t p.trades.length
        (nodeLots.allot rem (t.reached (queueOf t.side.opposite far)))
      return (far', p.after (t.reached (queueOf t.side.opposite far)) ts))

section levels

variable {ticker : String} {t : Taker} {fuel : Nat} {far far' : SideContainer} {rem price : Int} {orders : List Node}
  {L : List (Int × List Node)}

private theorem leaves_of_done (hok : SideOk t.side.opposite far) (hdone : rem ≤ 0) :
    Leaves ticker t fuel far rem far := by
  refine ⟨hok, ?_, ?_⟩
  · rw [nodeLots.leftover_of_nonpos hdone, t.reached_append_unreached]
  · rintro draw p rfl
    rw [matchLevels_of_done fuel far hdone, nodeLots.allot_of_nonpos hdone, tradesFor_nil, ok_bind,
      Progress.after_of_allot_nil (nodeLots.allot_of_nonpos hdone _) (nodeLots.unmet_of_nonpos hdone _)]
    rfl

private theorem leaves_of_unreached (hok : SideOk t.side.opposite far)
    (hnil : t.reached (queueOf t.side.opposite far) = []) : Leaves ticker t fuel far rem far := by
  have hunreach := t.reached_append_unreached (queueOf t.side.opposite far)
  rw [hnil, List.nil_append] at hunreach
  unfold Leaves
  rw [hnil, hunreach]
  refine ⟨hok, rfl, ?_⟩
  rintro draw p rfl
  rw [matchLevels_of_reached_nil fuel hok hnil, Lots.allot, tradesFor_nil, ok_bind,
    Progress.after_of_allot_nil rfl rfl]
  rfl

/-- The best level is used up and erased: the loop goes on with the levels behind it. -/
private theorem Leaves.erased (hok : SideOk t.side.opposite far) (hpos : 0 < rem)
    (hL : levelsOf t.side.opposite far = (price, orders) :: L) (hcross : t.Crosses price)
    (hempty : nodeLots.leftover rem orders = []) (h : Leaves ticker t fuel (far.erase price)
      (nodeLots.unmet rem orders) far') : Leaves ticker t (fuel + 1) far rem far' := by
  obtain ⟨hok', hqueue, heq⟩ := h
  obtain ⟨hreach, hunreach⟩ := hok.reached_cons hL hcross
  have hq : queueOf t.side.opposite (far.erase price) = L.flatMap Prod.snd := by rw [queueOf, levelsOf_erase hL]
  rw [hq] at hqueue heq
  unfold Leaves
  rw [hreach, hunreach]
  refine ⟨hok', ?_, ?_⟩
  · rw [hqueue, nodeLots.leftover_append, hempty]; rfl
  · rintro draw p rfl
    rw [matchLevels_succ fuel hpos hL hcross, fillLevel_eq]
    simp only [bind_assoc, pure_bind, if_pos hempty, nodeLots.allot_append, tradesFor_append]
    refine bind_congr_ok fun ts hts => ?_
    rw [heq draw (p.after orders ts) rfl]
    simp only [Progress.after, List.length_append, tradesFor_length hts, nodeLots.allot_append,
      nodeLots.unmet_append, eraseFilled_append, List.append_assoc]

/-- The best level keeps an order: nothing is left to fill and the loop ends. -/
private theorem leaves_of_kept (hok : SideOk t.side.opposite far) (hpos : 0 < rem)
    (hL : levelsOf t.side.opposite far = (price, orders) :: L) (hcross : t.Crosses price)
    (hkept : nodeLots.leftover rem orders ≠ []) :
    Leaves ticker t (fuel + 1) far rem (far.insert price (nodeLots.leftover rem orders)) := by
  have hmem : (price, orders) ∈ far.entries := mem_levelsOf.1 (by rw [hL]; simp)
  have hzero : nodeLots.unmet rem orders = 0 := by
    by_contra hne
    have := nodeLots.unmet_nonneg hpos.le orders
    exact hkept (nodeLots.leftover_of_unmet_pos hpos.le (by omega))
  obtain ⟨hreach, hunreach⟩ := hok.reached_cons hL hcross
  unfold Leaves
  rw [hreach, hunreach]
  refine ⟨hok.insert hkept (hok.price_pos _ hmem) (hok.price_lt _ hmem)
    (leftover_nodeOk hpos.le (hok.node_ok _ hmem)), ?_, ?_⟩
  · rw [queueOf, levelsOf_insert hL, nodeLots.leftover_append, hzero,
      nodeLots.leftover_of_nonpos (le_refl 0), List.append_assoc, t.reached_append_unreached]
    rfl
  · rintro draw p rfl
    rw [matchLevels_succ fuel hpos hL hcross, fillLevel_eq]
    simp only [bind_assoc, pure_bind, if_neg hkept, nodeLots.allot_append, hzero,
      nodeLots.allot_of_nonpos (le_refl 0), List.append_nil]
    congr 1
    funext ts
    rw [matchLevels_of_done fuel _ (le_of_eq (show (p.after orders ts).remainingQuantity = 0 from hzero))]
    simp only [Progress.after, nodeLots.allot_append, hzero, nodeLots.allot_of_nonpos (le_refl 0),
      List.append_nil, nodeLots.unmet_append, nodeLots.unmet_of_nonpos (le_refl 0)]
    rfl

end levels

/-- The two loops together: the remaining quantity is allotted to the nodes the taker's price reaches.  The far side
that remains depends on nothing else of the loop's state. -/
theorem matchLevels_eq (ticker : String) (t : Taker) (fuel : Nat) :
    ∀ (far : SideContainer) (rem : Int), SideOk t.side.opposite far → 0 ≤ rem → far.size ≤ fuel →
      ∃ far', SideOk t.side.opposite far' ∧
        queueOf t.side.opposite far' =
          nodeLots.leftover rem (t.reached (queueOf t.side.opposite far)) ++
            t.unreached (queueOf t.side.opposite far) ∧
        ∀ draw p, p.remainingQuantity = rem → matchLevels draw ticker t fuel far p = (do
          let ts ← tradesFor draw ticker t p.trades.length
            (nodeLots.allot rem (t.reached (queueOf t.side.opposite far)))
          return (far', p.after (t.reached (queueOf t.side.opposite far)) ts)) := by
  intro far rem hok hrem hsize
  show ∃ far', Leaves ticker t fuel far rem far'
  -- by induction on the fuel, which is at least the number of levels that are left
  induction fuel generalizing far rem with
  | zero =>
    have hL : levelsOf t.side.opposite far = [] := by
      rw [← List.length_eq_zero_iff, levelsOf_length]; omega
    exact ⟨far, leaves_of_unreached hok (by rw [queueOf, hL]; rfl)⟩
  | succ fuel ih =>
    rcases Int.lt_or_le 0 rem with hpos | hdone
    · by_cases hnil : t.reached (queueOf t.side.opposite far) = []
      · exact ⟨far, leaves_of_unreached hok hnil⟩
      · cases hL : levelsOf t.side.opposite far with
        | nil => exact absurd (by rw [queueOf, hL]; rfl) hnil
        | cons e L =>
          obtain ⟨price, orders⟩ := e
          have hcross : t.Crosses price := not_not.1 (mt (hok.reached_eq_nil_iff hL).2 hnil)
          by_cases hempty : nodeLots.leftover rem orders = []
          · have hsize' : (far.erase price).size ≤ fuel := by
              rw [← levelsOf_length t.side.opposite, levelsOf_erase hL]
              rw [← levelsOf_length t.side.opposite, hL, List.length_cons] at hsize
              omega
            obtain ⟨far', h⟩ := ih _ (nodeLots.unmet rem orders) (hok.erase price)
                (nodeLots.unmet_nonneg hrem orders) hsize'
            exact ⟨far', h.erased hok hpos hL hcross hempty⟩
          · exact ⟨_, leaves_of_kept hok hpos hL hcross hempty⟩
    · exact ⟨far, leaves_of_done hok hdone⟩

/-! ### `match_order` -/

section enqueue

variable {α : Type} (price : α → Int)

/-- An element enters a queue behind everything that is at least as well priced. -/
def enqueue (s : Side) (x : α) (q : List α) : List α :=
  q.takeWhile (fun y => ¬ s.Better (price x) (price y)) ++ x :: q.dropWhile (fun y => ¬ s.Better (price x) (price y))

private theorem enqueue_of_split {s : Side} {x : α} {X Y : List α} (hX : ∀ y ∈ X, ¬ s.Better (price x) (price y))
    (hY : ∀ y ∈ Y, s.Better (price x) (price y)) : enqueue price s x (X ++ Y) = X ++ x :: Y := by
  have hX' : ∀ y ∈ X, decide (¬ s.Better (price x) (price y)) = true := by simpa using hX
  unfold enqueue
  rw [List.takeWhile_append_of_pos hX', List.dropWhile_append_of_pos hX']
  cases Y with
  | nil => simp
  | cons y Y => simp [hY y (by simp)]

theorem enqueue_perm (s : Side) (x : α) (q : List α) : (enqueue price s x q).Perm (x :: q) := by
  refine List.perm_middle.trans (List.Perm.cons x ?_)
  rw [List.takeWhile_append_dropWhile]

theorem map_enqueue {β : Type} (f : β → α) (s : Side) (x : β) (q : List β) :
    (enqueue (fun y => price (f y)) s x q).map f = enqueue price s (f x) (q.map f) := by
  simp [enqueue, List.takeWhile_map, List.dropWhile_map, Function.comp_def]

end enqueue

/-- The price of a node's order. -/
def Node.price (n : Node) : Int := n.order.price

/-- What the contract of `add_order` and the range of `int` ask of a taker, apart from its id being new. -/
structure Taker.Ok (t : Taker) : Prop where
  id_nonneg : 0 ≤ t.orderId
  price_ok : t.price = marketAskOrderPrice ∨ 0 < t.price
  price_le : t.price ≤ marketBidOrderPrice
  broker_ne : t.brokerId ≠ ""

namespace LimitOrderBook

/-- The nodes of side `s` from best to worst. -/
def queue (b : LimitOrderBook) (s : Side) : List Node := queueOf s (b.getSide s)

/-- The makers that an order of quantity `q` is matched with, and how much each of them gives. -/
def fills (b : LimitOrderBook) (t : Taker) (q : Int) : List (Node × Int) :=
  nodeLots.allot q (t.reached (b.queue t.side.opposite))

/-- What the makers cannot give. -/
def remainder (b : LimitOrderBook) (t : Taker) (q : Int) :
    Int := nodeLots.unmet q (t.reached (b.queue t.side.opposite))

theorem sum_fills (b : LimitOrderBook) (t : Taker) (q : Int) :
    ((b.fills t q).map Prod.snd).sum = q - b.remainder t q :=
  nodeLots.sum_allot _ _

/-- A remainder stays in the book unless the price is a reserved one. -/
def Rests (b : LimitOrderBook) (t : Taker) (q : Int) : Prop :=
  0 < b.remainder t q ∧ t.price ≠ marketBidOrderPrice ∧ t.price ≠ marketAskOrderPrice

instance (b : LimitOrderBook) (t : Taker) (q : Int) : Decidable (b.Rests t q) := inferInstanceAs (Decidable (_ ∧ _))

/-- The node of a remainder. -/
def restingNode (b : LimitOrderBook) (t : Taker) (q : Int) : Node :=
  ⟨b.nextNode, ⟨t.orderId, t.price, b.remainder t q, t.side, t.brokerId⟩⟩

/-- The book that `match_order` leaves. -/
structure Matched (b : LimitOrderBook) (t : Taker) (q : Int) (b' : LimitOrderBook) : Prop where
  ticker_eq : b'.ticker = b.ticker
  far_ok : SideOk t.side.opposite (b'.getSide t.side.opposite)
  near_ok : SideOk t.side (b'.getSide t.side)
  far_queue : b'.queue t.side.opposite =
    nodeLots.leftover q (t.reached (b.queue t.side.opposite)) ++ t.unreached (b.queue t.side.opposite)
  near_queue : b'.queue t.side =
    if b.Rests t q then enqueue Node.price t.side (b.restingNode t q) (b.queue t.side) else b.queue t.side
  index_eq : ∀ id, b'.orderIdMap id =
    if b.Rests t q ∧ id = t.orderId then some b.nextNode else eraseFilled b.orderIdMap (b.fills t q) id
  nextNode_eq : b'.nextNode = if b.Rests t q then b.nextNode + 1 else b.nextNode

@[simp] theorem getSide_setSide (b : LimitOrderBook) (s : Side) (m : SideContainer) :
    (b.setSide s m).getSide s = m := by
  cases s <;> rfl

@[simp] theorem getSide_setSide_opposite (b : LimitOrderBook) (s : Side) (m : SideContainer) :
    (b.setSide s m).getSide s.opposite = b.getSide s.opposite := by cases s <;> rfl

@[simp] theorem getSide_opposite_setSide (b : LimitOrderBook) (s : Side) (m : SideContainer) :
    (b.setSide s.opposite m).getSide s = b.getSide s := by cases s <;> rfl

@[simp] theorem setSide_ticker (b : LimitOrderBook) (s : Side) (m : SideContainer) :
    (b.setSide s m).ticker = b.ticker := by cases s <;> rfl

@[simp] theorem setSide_nextNode (b : LimitOrderBook) (s : Side) (m : SideContainer) :
    (b.setSide s m).nextNode = b.nextNode := by cases s <;> rfl

@[simp] theorem setSide_orderIdMap (b : LimitOrderBook) (s : Side) (m : SideContainer) :
    (b.setSide s m).orderIdMap = b.orderIdMap := by cases s <;> rfl

theorem getSide_congr {b b' : LimitOrderBook} (hb : b'.bids = b.bids) (ha : b'.asks = b.asks) (s : Side) :
    b'.getSide s = b.getSide s := by
  cases s
  · exact hb
  · exact ha

private theorem getSide_restOrder (b : LimitOrderBook) (o : Order) : (b.restOrder o).getSide o.side =
    (b.getSide o.side).insert o.price (((b.getSide o.side).find? o.price).getD [] ++ [⟨b.nextNode, o⟩]) :=
  (getSide_congr rfl rfl o.side).trans (getSide_setSide ..)

private theorem getSide_opposite_restOrder (b : LimitOrderBook) (o : Order) :
    (b.restOrder o).getSide o.side.opposite = b.getSide o.side.opposite :=
  (getSide_congr rfl rfl o.side.opposite).trans (getSide_setSide_opposite ..)

/-- Storing an order at the tail of its level. -/
private theorem restOrder_queue {b : LimitOrderBook} {o : Order} (hok : SideOk o.side (b.getSide o.side)) :
    (b.restOrder o).queue o.side = enqueue Node.price o.side ⟨b.nextNode, o⟩ (b.queue o.side) := by
  obtain ⟨X, Y, hq, hq', hX, hY⟩ := queueOf_rest hok (p := o.price) ⟨b.nextNode, o⟩
  rw [queue, getSide_restOrder, hq', queue, hq, enqueue_of_split Node.price hX hY]

private theorem restOrder_ok {b : LimitOrderBook} {o : Order} (hok : SideOk o.side (b.getSide o.side))
    (hnode : NodeOk o.side o.price ⟨b.nextNode, o⟩) (hpos : 0 < o.price) (hlt : o.price < marketBidOrderPrice) :
    SideOk o.side ((b.restOrder o).getSide o.side) := by
  rw [getSide_restOrder]
  refine hok.insert (by simp) hpos hlt fun n hn => ?_
  rcases List.mem_append.1 hn with hn | hn
  · exact hok.level_ok o.price n hn
  · rw [List.mem_singleton.1 hn]; exact hnode

/-- `match_order` makes the trades of its fills, in their order, and leaves the matched book. -/
theorem matchOrder_eq {b : LimitOrderBook} {t : Taker} {q : Int}
    (hnear : SideOk t.side (b.getSide t.side)) (hfar : SideOk t.side.opposite (b.getSide t.side.opposite))
    (ht : t.Ok) (hq : 0 ≤ q) :
    ∃ b', b.Matched t q b' ∧ ∀ draw, b.matchOrder draw t q = (do
      let ts ← tradesFor draw b.ticker t 0 (b.fills t q)
      return (b', ts)) := by
  obtain ⟨far', hok', hqueue, heq⟩ := matchLevels_eq b.ticker t (b.getSide t.side.opposite).size
    (b.getSide t.side.opposite) q hfar hq (le_refl _)
  let b₁ : LimitOrderBook :=
    { b.setSide t.side.opposite far' with orderIdMap := eraseFilled b.orderIdMap (b.fills t q) }
  have hfar₁ : b₁.getSide t.side.opposite = far' := (getSide_congr rfl rfl _).trans (getSide_setSide b _ far')
  have hnear₁ : b₁.getSide t.side = b.getSide t.side :=
    (getSide_congr rfl rfl _).trans (getSide_opposite_setSide b _ far')
  -- `b₁` is the book after the loops; what is left to do is to store the remainder
  have hrun : ∀ draw, b.matchOrder draw t q = (do
      let ts ← tradesFor draw b.ticker t 0 (b.fills t q)
      return (if b.Rests t q then b₁.restOrder (b.restingNode t q).order else b₁, ts)) := by
    intro draw
    unfold matchOrder
    simp only [heq draw ⟨b.orderIdMap, q, []⟩ rfl, bind_assoc, pure_bind]
    refine bind_congr_ok fun ts _ => ?_
    by_cases hr : b.Rests t q
    · rw [if_pos hr]; exact if_pos hr
    · rw [if_neg hr]; exact if_neg hr
  refine ⟨_, ?_, hrun⟩
  by_cases hr : b.Rests t q
  · have hside : (b.restingNode t q).order.side = t.side := rfl
    have hlt : t.price < marketBidOrderPrice := lt_of_le_of_ne ht.price_le hr.2.1
    have hpos : 0 < t.price := ht.price_ok.resolve_left hr.2.2
    have hnode : NodeOk t.side t.price ⟨b₁.nextNode, (b.restingNode t q).order⟩ :=
      ⟨rfl, rfl, hr.1, ht.id_nonneg, ht.broker_ne⟩
    have hnext : b₁.nextNode = b.nextNode := by simp [b₁]
    have hfar₂ : (b₁.restOrder (b.restingNode t q).order).getSide t.side.opposite = far' :=
      (getSide_opposite_restOrder b₁ (b.restingNode t q).order).trans hfar₁
    rw [if_pos hr]
    refine ⟨by simp [restOrder, b₁], ?_, ?_, ?_, ?_, ?_, ?_⟩
    · rw [hfar₂]; exact hok'
    · exact restOrder_ok (o := (b.restingNode t q).order) (hnear₁ ▸ hnear) hnode hpos hlt
    · rw [queue, hfar₂]; exact hqueue
    · rw [if_pos hr]
      have := restOrder_queue (b := b₁) (o := (b.restingNode t q).order) (hnear₁ ▸ hnear)
      rw [hnext, queue, queue, hside, hnear₁] at this
      exact this
    · intro id
      simp only [restOrder, Function.update_apply, hnext, hr, true_and]
      rfl
    · rw [if_pos hr]; simp [restOrder, hnext]
  · rw [if_neg hr]
    refine ⟨by simp [b₁], hfar₁ ▸ hok', hnear₁ ▸ hnear, by rw [queue, hfar₁]; exact hqueue, ?_, ?_, ?_⟩
    · rw [if_neg hr, queue, hnear₁]; rfl
    · intro id; simp [hr, b₁]
    · rw [if_neg hr]; simp [b₁]

end LimitOrderBook

end Elsa
