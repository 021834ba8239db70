import Elsa.System.Handling
import Elsa.Transport.Messaging

/-!
# The exchange over connections that carry bytes

The connections between gateway, order manager and engine carry what `serialize_container` writes, and each side
starts with `deserialize_container`; a message that cannot be read stops the process.  `Exchange` passes containers
instead.  With 32-bit integers the two do the same, step by step and run by run (`exec_wire`): every message that
the two processes exchange has numbers that fit an `int` and is not an execution report, so it comes back as it was.

`InRange` is the invariant behind this: numbers come from the gateway, from the counter of order ids or from a
32-bit sum, and matching only makes quantities smaller.
-/

namespace Elsa

open Base LimitOrderBook Transport

/-- A container that comes back from the wire as it was. -/
structure Container.Wirable (c : Container) : Prop where
  fits : c.Fits
  noReport : ∀ r, c ≠ .executionReport r

private theorem Container.Wirable.deserialize {c : Container} (h : c.Wirable) (P : Codec ContainerWrapper) :
    deserializeContainer P (serializeContainer P c) = .ok c := by
  rw [deserializeContainer_serializeContainer P h.fits, Except.ok.injEq, readBack_eq_iff]
  exact fun r hr => absurd hr (h.noReport r)

private theorem GatewayShaped.wirable {c : Container} (h : GatewayShaped c) : c.Wirable := by
  cases c with
  | newOrderSingle o =>
    obtain ⟨hid, -, hcl, hqty, hprice⟩ := h
    have hnone : ∀ id ∈ o.orderId, IsInt32 id := fun id hmem => by
      rw [hid] at hmem
      cases hmem
    have hpriced : ∀ p ∈ o.price, IsInt32 p := fun p hp => by
      rw [Option.mem_def.1 hp] at hprice
      exact of_decide_eq_true hprice
    exact ⟨And.intro hnone ⟨hcl, hqty, hpriced⟩, fun _ he => by cases he⟩
  | cancelOrderRequest c =>
    obtain ⟨horig, hcl, hqty, hid⟩ := h
    have hknown : ∀ id ∈ c.orderId, IsInt32 id := fun id hmem => by
      rw [Option.mem_def.1 hmem] at hid
      exact of_decide_eq_true hid
    exact ⟨And.intro hknown ⟨horig, hcl, hqty⟩, fun _ he => by cases he⟩
  | executionReport => exact h.elim
  | fillCostQuery => exact h.elim
  | fillCostResponse => exact h.elim
  | trade => exact h.elim
  | cancelOrderResponse => exact h.elim

/-! ### Numbers in a book -/

/-- The numbers of a resting order are values of `int`. -/
structure Order.InRange (x : Order) : Prop where
  id : IsInt32 x.orderId
  price : IsInt32 x.price
  quantity_le : x.quantity ≤ 2147483647

theorem Order.InRange.cut {x : Order} (h : x.InRange) {k : Int} (hk : 0 ≤ k) : (x.cut k).InRange := by
  refine ⟨h.id, h.price, ?_⟩
  have := h.quantity_le
  show x.quantity - k ≤ _
  omega

namespace LimitOrderBook

variable {b b' : LimitOrderBook} {t : Taker} {q : Int}

private theorem Ok.remainder_le (h : b.Ok) (hq : 0 ≤ q) : b.remainder t q ≤ q := by
  have hsum := b.sum_fills t q
  have hnonneg : 0 ≤ ((b.fills t q).map Prod.snd).sum := List.sum_nonneg fun x hx => by
    obtain ⟨f, hf, rfl⟩ := List.mem_map.1 hx
    exact (h.mem_fills hq hf).2.2.le
  omega

/-- Matching leaves the numbers of the resting orders in range. -/
theorem Matched.inRange (hm : b.Matched t q b') (h : b.Ok) (hq : 0 ≤ q) (hid : IsInt32 t.orderId)
    (hprice : IsInt32 t.price) (hqty : q ≤ 2147483647) (hold : ∀ n ∈ b.nodes, n.order.InRange) :
    ∀ n ∈ b'.nodes, n.order.InRange := by
  have hfar : ∀ n ∈ b.queue t.side.opposite, n.order.InRange :=
    fun n hn => hold n ((LimitOrderBook.mem_nodes t.side).2 (Or.inl hn))
  have hnear : ∀ n ∈ b.queue t.side, n.order.InRange :=
    fun n hn => hold n ((LimitOrderBook.mem_nodes t.side).2 (Or.inr hn))
  intro n hn
  rcases (LimitOrderBook.mem_nodes t.side).1 hn with hn | hn
  · rw [hm.far_queue, List.mem_append] at hn
    rcases hn with hn | hn
    · obtain ⟨m, hmem, k, hk, rfl⟩ := nodeLots.mem_leftover_nonneg hq hn
      exact (hfar m ((List.takeWhile_prefix _).subset hmem)).cut hk
    · exact hfar n ((List.dropWhile_suffix _).subset hn)
  · rw [hm.near_queue] at hn
    split at hn
    · rcases List.mem_cons.1 ((enqueue_perm _ _ _ _).mem_iff.1 hn) with rfl | hn
      · exact ⟨hid, hprice, (h.remainder_le hq).trans hqty⟩
      · exact hnear n hn
    · exact hnear n hn

/-- The numbers of a trade are in range if those of its orders are. -/
private theorem Ok.trade_wirable (h : b.Ok) (hq : 0 ≤ q) (hid : IsInt32 t.orderId)
    (hold : ∀ n ∈ b.nodes, n.order.InRange) {draw : Nat → Stamp} {ticker : String} {tc : TradeContainer}
    (htc : tc ∈ fillTrades draw ticker t (b.fills t q)) : Container.Wirable (.trade tc) := by
  obtain ⟨f, hf, tradeId, rfl⟩ := mem_fillTrades htc
  obtain ⟨hmem, -, hpos⟩ := h.mem_fills hq hf
  have hmaker := hold f.1 ((mem_nodes t.side).2 (Or.inl hmem))
  have hle : f.2 ≤ f.1.order.quantity := by
    refine (nodeLots.mem_allot hq (fun n hn => ?_) hf).2.2
    exact (h.node_ok ((List.takeWhile_prefix _).subset hn)).1.quantity_pos
  have hqty : IsInt32 f.2 := by
    have := hmaker.quantity_le
    exact ⟨by omega, by omega⟩
  exact ⟨And.intro hmaker.price ⟨hqty, hid, hmaker.id⟩, fun _ he => by cases he⟩

/-- A cost is a 32-bit sum. -/
private theorem fillCostLoop_isInt32 {side : Side} {n i : Nat} {total quantity cost : Int} (ht : IsInt32 total)
    (h : b.fillCostLoop .machine side n i total quantity = .ok cost) : IsInt32 cost := by
  induction n generalizing i total quantity with
  | zero =>
    cases h
    exact ht
  | succ n ih =>
    unfold fillCostLoop at h
    split at h
    · cases h
      exact ht
    · obtain ⟨aggregate, -, h⟩ := bind_eq_ok.1 h
      split at h
      · exact ih (Arith.isInt32_machine _) h
      · exact ih (Arith.isInt32_machine _) h

private theorem getFillCost_isInt32 {side : Side} {cost : Int} (h : b.getFillCost .machine q side = .ok (some cost)) :
    IsInt32 cost := by
  unfold getFillCost at h
  obtain ⟨-, -, h⟩ := bind_eq_ok.1 h
  split at h
  · cases h
  · obtain ⟨total, hloop, h⟩ := bind_eq_ok.1 h
    obtain ⟨-, -, h⟩ := bind_eq_ok.1 h
    cases h
    exact fillCostLoop_isInt32 (by decide) hloop

end LimitOrderBook

/-! ### The exchange with bytes on its connections -/

structure WiredExchange where
  om : OrderManager
  waiting : Option (NewOrderSingle × Int)
  me : MatchingEngine
  requests : List (List UInt8)
  answers : List (List UInt8)
  responses : List (List UInt8)
  history : History

inductive WiredEvent
  | request (data : List UInt8) (arrivalGatewayId : Int) (ids : Nat → String)
  | answer (ids : Nat → String)
  | matching (draw : Nat → Stamp)
  | response (ids : Nat → String)

namespace WiredExchange

variable (P : Codec ContainerWrapper) (cfg : Config) (A : Arith)

def step (s : WiredExchange) : WiredEvent → Option WiredExchange
  | .request data gw ids =>
    match s.waiting, deserializeContainer P data with
    | none, .ok c =>
      match handleRequest cfg A true gw ids s.om c with
      | .ok (om, .done out) =>
        some { s with om, requests := s.requests ++ out.forwarded.map (serializeContainer P)
                      history := s.history.forward out.forwarded }
      | .ok (om, .waiting o q) =>
        some
          { s with om, waiting := some (o, gw), requests := s.requests ++ [serializeContainer P (.fillCostQuery q)] }
      | .error _ => none
    | _, _ => none
  | .answer ids =>
    match s.waiting, s.answers with
    | some (o, gw), data :: answers =>
      match deserializeContainer P data with
      | .ok a =>
        match completeRequest cfg A gw ids s.om o a with
        | .ok (om, out) =>
          some { s with om, waiting := none, answers
                        requests := s.requests ++ out.forwarded.map (serializeContainer P)
                        history := s.history.forward out.forwarded }
        | .error _ => none
      | .error _ => none
    | _, _ => none
  | .matching draw =>
    match s.requests with
    | data :: requests =>
      match deserializeContainer P data with
      | .ok c =>
        match s.me.processContainer A draw (fun _ => true) c with
        | .ok (me, sent) =>
          some { s with me, requests, responses := s.responses ++ sent.responses.map (serializeContainer P)
                        answers := s.answers ++ sent.answers.map (serializeContainer P) }
        | .error _ => none
      | .error _ => none
    | [] => none
  | .response ids =>
    match s.waiting, s.responses with
    | none, data :: responses =>
      match deserializeContainer P data with
      | .ok c =>
        match handleResponse cfg A ids s.om c with
        | .ok (om, _) => some { s with om, responses, history := s.history.process c }
        | .error _ => none
      | .error _ => none
    | _, _ => none

end WiredExchange

namespace Exchange

/-- The same exchange with its messages serialised. -/
def wire (P : Codec ContainerWrapper) (s : Exchange) : WiredExchange where
  om := s.om
  waiting := s.waiting
  me := s.me
  requests := s.requests.map (serializeContainer P)
  answers := s.answers.map (serializeContainer P)
  responses := s.responses.map (serializeContainer P)
  history := s.history

/-- The same event; a request comes from the gateway in serialised form. -/
def wireEvent (P : Codec ContainerWrapper) : Event → WiredEvent
  | .request c gw ids => .request (serializeContainer P c) gw ids
  | .answer ids => .answer ids
  | .matching draw => .matching draw
  | .response ids => .response ids

/-- All numbers are values of `int`, on the connections and where they come from. -/
structure InRange (s : Exchange) : Prop where
  requests : ∀ c ∈ s.requests, c.Wirable
  answers : ∀ c ∈ s.answers, c.Wirable
  responses : ∀ c ∈ s.responses, c.Wirable
  waiting : ∀ o gw, s.waiting = some (o, gw) → Container.Wirable (.newOrderSingle o)
  registered : ∀ id, s.om.orderIdMap.left id ≠ none → IsInt32 id
  resting : ∀ symbol b, s.me.limitOrderBooks symbol = some b → ∀ n ∈ b.nodes, n.order.InRange

variable {cfg : Config} {A : Arith} {s s' : Exchange}

/-- A step with serialised messages is the step with containers, where the messages can be read back. -/
private theorem step_wire (P : Codec ContainerWrapper) (h : s.InRange) {e : Event} (he : Fed e) :
    (s.wire P).step P cfg A (wireEvent P e) = (s.step cfg A e).map (wire P) := by
  obtain ⟨om, waiting, me, requests, answers, responses, history⟩ := s
  cases e with
  | request c gw ids =>
    cases waiting with
    | some w => rfl
    | none =>
      simp only [wire, wireEvent, WiredExchange.step, step, (GatewayShaped.wirable he).deserialize P]
      cases handleRequest cfg A true gw ids om c with
      | error e => rfl
      | ok r =>
        obtain ⟨om', res⟩ := r
        cases res with
        | done out => simp [wire]
        | waiting o q => simp [wire]
  | answer ids =>
    cases waiting with
    | none => rfl
    | some w =>
      cases answers with
      | nil => rfl
      | cons a answers =>
        simp only [wire, wireEvent, WiredExchange.step, step, List.map_cons,
          (h.answers a List.mem_cons_self).deserialize P]
        cases completeRequest cfg A w.2 ids om w.1 a with
        | error e => rfl
        | ok r => simp [wire]
  | matching draw =>
    cases requests with
    | nil => rfl
    | cons c requests =>
      simp only [wire, wireEvent, WiredExchange.step, step, List.map_cons,
        (h.requests c List.mem_cons_self).deserialize P]
      cases me.processContainer A draw (fun _ => true) c with
      | error e => rfl
      | ok r => simp [wire]
  | response ids =>
    cases waiting with
    | some w => rfl
    | none =>
      cases responses with
      | nil => rfl
      | cons c responses =>
        simp only [wire, wireEvent, WiredExchange.step, step, List.map_cons,
          (h.responses c List.mem_cons_self).deserialize P]
        cases handleResponse cfg A ids om c with
        | error e => rfl
        | ok r => simp [wire]

/-! ### All numbers stay in range -/

theorem start_inRange (balances : BalanceChecker) : (start cfg balances).InRange where
  requests _ h := by cases h
  answers _ h := by cases h
  responses _ h := by cases h
  waiting _ _ h := by cases h
  registered _ h := absurd rfl h
  resting symbol b hb n hn := by
    simp only [start, MatchingEngine.new] at hb
    split at hb
    · cases hb
      cases hn
    · cases hb

namespace InRange

/-- The order manager sends a message. -/
theorem send (h : s.InRange) {c : Container} (hc : c.Wirable) : ∀ d ∈ s.requests ++ [c], d.Wirable := fun d hd =>
  (List.mem_append.1 hd).elim (h.requests d) fun hd => List.mem_singleton.1 hd ▸ hc

/-- A new order with the id that the counter gives. -/
private theorem assigned_wirable {o : NewOrderSingle} (ho : GatewayShaped (.newOrderSingle o)) (s : Exchange) :
    Container.Wirable (.newOrderSingle (o.assigned (s.nextId .machine))) := by
  obtain ⟨-, hcl, hqty, hprice⟩ := ho.wirable.fits
  have hid : ∀ id ∈ some (s.nextId .machine), IsInt32 id := fun id hmem => by
    cases hmem
    exact Arith.isInt32_machine _
  exact ⟨And.intro hid ⟨hcl, hqty, hprice⟩, fun _ he => by cases he⟩

/-- A cancellation carries the id of a registered order, or the one that the client has sent. -/
private theorem cancel_wirable (h : s.InRange) {c : CancelOrderRequest} (hc : GatewayShaped (.cancelOrderRequest c)) :
    Container.Wirable (.cancelOrderRequest (preprocessedCancel cfg A s.om c)) := by
  obtain ⟨hid, horig, hcl, hqty⟩ := hc.wirable.fits
  refine ⟨?_, fun _ he => by cases he⟩
  unfold preprocessedCancel preprocessCancelRequest
  split
  · exact And.intro hid ⟨horig, hcl, hqty⟩
  · split
    · rename_i userId _ id hkey
      have hfound : ∀ id' ∈ some id, IsInt32 id' := fun id' hmem => by
        cases hmem
        have hleft := (s.om.orderIdMap.agree _ _).2 hkey
        exact h.registered id (by rw [hleft]; exact Option.some_ne_none _)
      exact And.intro hfound ⟨horig, hcl, hqty⟩
    · exact And.intro hid ⟨horig, hcl, hqty⟩

/-- The order manager registers an order. -/
private theorem registered_register (h : s.InRange) (o : NewOrderSingle) (userId gw id : Int)
    (hid : (s.register .machine o userId gw).om.orderIdMap.left id ≠ none) : IsInt32 id := by
  rcases Bimap.left_of_insert_ne_none hid with hid | rfl
  · exact h.registered id hid
  · exact Arith.isInt32_machine _

/-- The engine takes a request and leaves one book. -/
theorem resting_setBook (h : s.InRange) {symbol : String} {b' : LimitOrderBook}
    (hb' : ∀ n ∈ b'.nodes, n.order.InRange) :
    ∀ symbol' b, (s.me.setBook symbol b').limitOrderBooks symbol' = some b → ∀ n ∈ b.nodes, n.order.InRange := by
  intro symbol' b hb
  simp only [MatchingEngine.setBook, Function.update_apply] at hb
  split at hb
  · cases hb
    exact hb'
  · exact h.resting symbol' b hb

theorem move (h : s.InRange) (hs : s.Serves cfg) {e : Event} (hfed : Fed e) (hm : Move cfg .machine s e s') :
    s'.InRange := by
  have htail : ∀ {c : Container} {cs rest : List Container}, (∀ d ∈ cs, d.Wirable) → cs = c :: rest →
      ∀ d ∈ rest, d.Wirable :=
    fun hall hr d hd => hall d (hr ▸ List.mem_cons_of_mem _ hd)
  cases hm with
  | refused => exact ⟨h.requests, h.answers, h.responses, h.waiting, h.registered, h.resting⟩
  | rejected o gw ids userId hr =>
    exact ⟨h.requests, h.answers, h.responses, h.waiting, h.registered_register o userId gw, h.resting⟩
  | forwarded o gw ids userId bc hr =>
    exact ⟨h.send (assigned_wirable hfed s), h.answers, h.responses, h.waiting, h.registered_register o userId gw,
      h.resting⟩
  | queried o gw ids userId hr =>
    have hshaped : GatewayShaped (.newOrderSingle o) := hfed
    have hquery : Container.Wirable (.fillCostQuery ⟨o.symbol, o.orderQty, .ask⟩) :=
      ⟨hshaped.wirable.fits.2.2.1, fun _ he => by cases he⟩
    refine ⟨h.send hquery, h.answers, h.responses, fun o' gw' he => ?_, h.registered_register o userId gw, h.resting⟩
    cases he
    exact assigned_wirable hfed s
  | cancelRefused => exact h
  | cancelForwarded c gw ids id =>
    exact ⟨h.send (h.cancel_wirable hfed), h.answers, h.responses, h.waiting, h.registered, h.resting⟩
  | answerRefused o gw cost answers ids hw ha =>
    exact ⟨h.requests, htail h.answers ha, h.responses, fun _ _ he => (by cases he), h.registered, h.resting⟩
  | answerAccepted o gw cost answers ids bc hw ha =>
    exact ⟨h.send (h.waiting o gw hw), htail h.answers ha, h.responses, fun _ _ he => (by cases he), h.registered,
      h.resting⟩
  | matched o id b b' requests draw hr hid hb hfree ht hq hmt =>
    have hbook := h.resting _ b hb
    have hbok := (hs.engine_ok.book_ok _ b hb).1
    have hmem : .newOrderSingle o ∈ s.requests := hr ▸ List.mem_cons_self
    obtain ⟨hoid, -, hqty, -⟩ := (h.requests _ hmem).fits
    have hprice : IsInt32 (o.taker id).price := by
      have hlo := ht.price_ok
      have hhi := ht.price_le
      rw [marketAskOrderPrice] at hlo
      exact ⟨by omega, hhi⟩
    refine ⟨htail h.requests hr, h.answers, fun c hc => ?_, h.waiting, h.registered,
      h.resting_setBook (hmt.inRange hbok hq.le (hoid id hid) hprice hqty.2 hbook)⟩
    rcases List.mem_append.1 hc with hc | hc
    · exact h.responses c hc
    · obtain ⟨tc, htc, rfl⟩ := List.mem_map.1 hc
      exact hbok.trade_wirable hq.le (hoid id hid) hbook htc
  | cancelled c id b b' requests draw hr hid hb hix hcn =>
    have hmem : .cancelOrderRequest c ∈ s.requests := hr ▸ List.mem_cons_self
    obtain ⟨hoid, -, hcl, -⟩ := (h.requests _ hmem).fits
    have hbook : ∀ n ∈ b'.nodes, n.order.InRange := fun n hn => by
      rw [nodes, hcn.queue_eq, hcn.queue_eq, ← List.filter_append] at hn
      exact h.resting _ b hb n (List.mem_of_mem_filter hn)
    refine ⟨htail h.requests hr, h.answers, fun d hd => ?_, h.waiting, h.registered, h.resting_setBook hbook⟩
    rcases List.mem_append.1 hd with hd | hd
    · exact h.responses d hd
    · rw [List.mem_singleton.1 hd]
      exact ⟨And.intro (hoid id hid) hcl, fun _ he => by cases he⟩
  | cancelMissed c id requests draw hr hid =>
    have hmem : .cancelOrderRequest c ∈ s.requests := hr ▸ List.mem_cons_self
    obtain ⟨hoid, -, hcl, -⟩ := (h.requests _ hmem).fits
    refine ⟨htail h.requests hr, h.answers, fun d hd => ?_, h.waiting, h.registered, h.resting⟩
    rcases List.mem_append.1 hd with hd | hd
    · exact h.responses d hd
    · rw [List.mem_singleton.1 hd]
      exact ⟨And.intro (hoid id hid) hcl, fun _ he => by cases he⟩
  | quoted q b cost requests draw hr hb hcost =>
    refine ⟨htail h.requests hr, fun d hd => ?_, h.responses, h.waiting, h.registered, h.resting⟩
    rcases List.mem_append.1 hd with hd | hd
    · exact h.answers d hd
    · rw [List.mem_singleton.1 hd]
      have hfits : ∀ c ∈ cost, IsInt32 c := fun c hc => by
        rw [Option.mem_def.1 hc] at hcost
        exact getFillCost_isInt32 hcost
      exact ⟨hfits, fun _ he => by cases he⟩
  | settled t responses ids om hw hr hu | confirmed id clOrdId responses ids om hw hr hu =>
    obtain ⟨hleft, -, -⟩ := updateInternalData_fixed hu
    exact ⟨h.requests, h.answers, htail h.responses hr, h.waiting, fun id' hid => h.registered id' (hleft ▸ hid),
      h.resting⟩
  | cancelFailed id clOrdId responses ids hw hr =>
    exact ⟨h.requests, h.answers, htail h.responses hr, h.waiting, h.registered, h.resting⟩

end InRange

/-- Run for run, the exchange over connections that carry bytes does what the exchange over containers does. -/
theorem exec_wire (P : Codec ContainerWrapper) (balances : BalanceChecker) {es : List Event} (hes : ∀ e ∈ es, Fed e) :
    exec (WiredExchange.step P cfg .machine) ((start cfg balances).wire P) (es.map (wireEvent P)) =
      (exec (step cfg .machine) (start cfg balances) es).map (wire P) :=
  exec_map_of_encodes (I := fun s => s.InRange ∧ s.Serves cfg) (fun _ _ hs he => step_wire P hs.1 he)
    (fun _ _ _ hs he hstep => by
      have hm := hs.2.move_of_step he hstep
      exact ⟨hs.1.move hs.2 he hm, hs.2.move hm⟩)
    ⟨start_inRange balances, start_serves⟩ hes

/-- The small run over bytes. -/
theorem exec_wire_sampleTrading : ∃ s : Exchange, s.responses.length = 1 ∧
    exec (WiredExchange.step ContainerWrapper.codec twoUsers .machine)
      ((start twoUsers twoBalances).wire ContainerWrapper.codec)
      (sampleTrading.map (wireEvent ContainerWrapper.codec)) = some (s.wire ContainerWrapper.codec) := by
  have hrun : (exec (step twoUsers .machine) (start twoUsers twoBalances) sampleTrading).any
      (fun s => decide (s.responses.length = 1)) = true := by decide +kernel
  obtain ⟨s, hs, hlen⟩ := (Option.any_eq_true _ _).1 hrun
  refine ⟨s, of_decide_eq_true hlen, ?_⟩
  rw [exec_wire ContainerWrapper.codec twoBalances (by decide), hs]
  rfl

end Exchange

end Elsa
